import ScalableBooking.RateLimit.Lifetimes

/-!
# No permanent lock-out

A request can be lost between its `INCR` and its `EXPIRE`, and then the key that it has created
stands without a deadline. Every request sends the `EXPIRE`, before it looks at the limit, so the
next one to get that far, admitted or rejected, repairs the key: the life of the key is then
`Doomed`, and that is kept by everything that can happen to a key.

So a key without a deadline is one for which no request has got past its `EXPIRE` in the present
life, and once one has, the life is over a window later (`recovers_of_run`).
-/

namespace ScalableBooking.RateLimit

open ExpiringCounter

variable {P : Type} {env : Env} {requests : P → Request} {s s' : State P} {p : P} {key : String}

namespace State

/-- A life that is doomed by `t` is over after `t`. -/
theorem live_eq_none {life t : ℕ} (h : Doomed life t (s.keyAt requests key))
    (hlife : s.lives key = life) (ht : t < s.clock) : s.live key = none := by
  rw [live, Option.filter_eq_none_iff]
  intro counter hcounter
  obtain ⟨t', ht', hle⟩ := h.deadline hlife counter hcounter
  rw [ht']
  simpa using hle.trans_lt ht

/-- A counter that a command does not find has a deadline. -/
theorem expiresAt_of_live_eq_none {counter : Counter} (h : s.live key = none)
    (hcounter : s.redis key = some counter) : ∃ t, counter.expiresAt = some t := by
  have hdead : (s.keyAt (fun _ : P => ⟨none, none⟩) key).Dead := dead_of_live h
  obtain ⟨t, ht, -⟩ := hdead counter hcounter
  exact ⟨t, ht⟩

/-- After an `EXPIRE NX` the present life of the key ends within a window. -/
theorem doomed_expireNx (hnear : Near env.window (s.keyAt requests key)) :
    Doomed (s.lives key) (s.clock + env.window)
      ((s.expireNx key env.windowSeconds).keyAt requests key) := by
  have hdeadline {counter : Counter} (hcounter : s.redis key = some counter)
      (hsome : ∃ t, counter.expiresAt = some t) :
      ∃ t, counter.expiresAt = some t ∧ t ≤ s.clock + env.window := by
    obtain ⟨value, expiresAt⟩ := counter
    obtain ⟨t, rfl⟩ := hsome
    exact ⟨t, rfl, hnear value t hcounter⟩
  unfold expireNx
  split
  · -- the key had no deadline, and gets one
    refine ⟨Nat.le_refl _, fun _ counter hcounter => ⟨s.clock + env.window, ?_, Nat.le_refl _⟩⟩
    have heq : Function.update s.redis key _ key = some counter := hcounter
    rw [Function.update_self] at heq
    cases heq
    rfl
  · next hnot =>
    refine ⟨Nat.le_refl _, fun _ counter hcounter => hdeadline hcounter ?_⟩
    cases hlive : s.live key with
    | none => exact expiresAt_of_live_eq_none hlive hcounter
    | some found =>
      have heq : s.redis key = some found := live_eq_some hlive
      rw [show s.redis key = some counter from hcounter] at heq
      obtain rfl := Option.some.inj heq
      obtain ⟨value, expiresAt⟩ := counter
      cases expiresAt with
      | none => exact absurd hlive (hnot value)
      | some t => exact ⟨t, rfl⟩

/-- The next request after a life is counted as `1`. -/
theorem step_of_live_eq_none [DecidableEq P] (hlive : s.live (requests p).key = none)
    (hp : s.phase p = .arrived) (hexempt : (requests p).exempt = false) :
    ∃ s', s.step env requests (.run p) = some s' ∧
      s'.phase p = .counted ⟨1, s.clock, s.lives (requests p).key + 1⟩ := by
  refine ⟨(s.incr (requests p).key).1.goto p (.counted (s.incr (requests p).key).2), ?_, ?_⟩
  · simp only [step, hp, hexempt, Bool.false_eq_true, if_false]
  · simp [goto, incr, hlive]

end State

section Runs

variable [DecidableEq P] {redis : String → Option Counter} {clock : ℕ}
  {es₁ es₂ : List (Event P)} {s₁ s₂ s₃ : State P} {c : Count}

/-- **No permanent lock-out.** In a run from a store whose deadlines are at most a window ahead,
let `p` get past its `EXPIRE` in the step from `s₁` to `s₂`. In every state `s₃` after it, a key
without a deadline is in a later life. More than a window later the life is over: either the key
is gone, and the next request is counted as `1`, or a later life has begun, with a request that
was counted as `1`. -/
theorem recovers_of_run
    (hredis : ∀ key value t, redis key = some ⟨value, some t⟩ → t ≤ clock + env.window)
    (hrun₁ : (State.start redis clock).run env requests es₁ = some s₁)
    (hp : s₁.phase p = .counted c) (hstep : s₁.step env requests (.run p) = some s₂)
    (hrun₂ : s₂.run env requests es₂ = some s₃) :
    (∀ value, s₃.redis (requests p).key = some ⟨value, none⟩ →
      s₁.lives (requests p).key < s₃.lives (requests p).key) ∧
    (s₁.clock + env.window < s₃.clock →
      (s₃.lives (requests p).key = s₁.lives (requests p).key ∧
        s₃.live (requests p).key = none ∧
        ∀ q, s₃.phase q = .arrived → (requests q).exempt = false →
          (requests q).key = (requests p).key → ∃ s₄, s₃.step env requests (.run q) = some s₄ ∧
            s₄.phase q = .counted ⟨1, s₃.clock, s₃.lives (requests p).key + 1⟩) ∨
      (s₁.lives (requests p).key < s₃.lives (requests p).key ∧
        ∃ q c', (requests q).key = (requests p).key ∧ s₃.count q = some c' ∧
          c'.life = s₁.lives (requests p).key + 1 ∧ c'.current = 1)) := by
  have hstart : Near env.window ((State.start redis clock : State P).keyAt requests
      (requests p).key) ∧
      Begun ((State.start redis clock : State P).keyAt requests (requests p).key) := by
    rw [State.keyAt_start]
    refine ⟨fun value t => hredis _ value t, fun life hone hlife => ?_⟩
    exact absurd hone (Nat.not_le_of_lt (Nat.lt_succ_of_le hlife))
  -- what is known up to the `EXPIRE`, what it does, and what it leaves for good
  obtain ⟨hnear, hbegun⟩ := State.keyAt_run (Q := fun k => Near env.window k ∧ Begun k)
    (fun k k' h hs => ⟨h.1.step hs, h.2.step hs⟩) hstart hrun₁
  have hdoomed : Doomed (s₁.lives (requests p).key) (s₁.clock + env.window)
      (s₂.keyAt requests (requests p).key) := by
    simp only [State.step, hp, Option.some.injEq] at hstep
    subst hstep
    rw [State.keyAt_windowed hp]
    exact State.doomed_expireNx hnear
  have hbegun₂ := hbegun.step (State.keyAt_step hstep (requests p).key)
  obtain ⟨hdoomed, hbegun⟩ := State.keyAt_run
    (Q := fun k => Doomed (s₁.lives (requests p).key) (s₁.clock + env.window) k ∧ Begun k)
    (fun k k' h hs => ⟨h.1.step hs, h.2.step hs⟩) ⟨hdoomed, hbegun₂⟩ hrun₂
  have hlives : s₁.lives (requests p).key ≤ s₃.lives (requests p).key := hdoomed.begun
  refine ⟨fun value hvalue => ?_, fun hclock => ?_⟩
  · refine lt_of_le_of_ne hlives fun heq => ?_
    obtain ⟨t, ht, -⟩ := hdoomed.deadline heq.symm _ hvalue
    cases ht
  · rcases hlives.eq_or_lt with heq | hlt
    · have hlive := State.live_eq_none hdoomed heq.symm hclock
      refine Or.inl ⟨heq.symm, hlive, fun q hq hexempt hkey => ?_⟩
      rw [← hkey] at hlive ⊢
      exact State.step_of_live_eq_none hlive hq hexempt
    · obtain ⟨q, c', hgiven, hlife, hone⟩ := hbegun _ (Nat.le_add_left 1 _) hlt
      have hkey : (requests q).key = (requests p).key := by
        by_contra hne
        simp [State.keyAt, hne] at hgiven
      refine Or.inr ⟨hlt, q, c', hkey, ?_, hlife, hone⟩
      simpa [State.keyAt, hkey] using hgiven

end Runs

/-- The first request is lost after its `INCR`, the second one repairs the key. -/
def crashThenRepair : List (Event ℕ) := [.run 0, .crash 0, .tick 5, .run 1]

/-- A second later the third one is counted as the first. -/
theorem recovers_of_run_crashThenRepair :
    ∃ s₁ s₂ s₃ s₄ : State ℕ,
      (State.start (fun _ => none) 0).run .two (fun _ => ⟨none, some "10.0.0.1"⟩)
        crashThenRepair = some s₁ ∧
      s₁.redis "rate_limit:10.0.0.1" = some ⟨2, none⟩ ∧
      s₁.step .two (fun _ => ⟨none, some "10.0.0.1"⟩) (.run 1) = some s₂ ∧
      s₂.run .two (fun _ => ⟨none, some "10.0.0.1"⟩) [.run 1, .tick 1001] = some s₃ ∧
      s₃.step .two (fun _ => ⟨none, some "10.0.0.1"⟩) (.run 2) = some s₄ ∧
      s₄.phase 2 = .counted ⟨1, 1006, 2⟩ := by
  obtain ⟨s₁, s₂, s₃, hrun₁, hp, hredis, hstep, hrun₂, hclock, hlives, hlives₃, harrived⟩ :
      ∃ s₁ s₂ s₃ : State ℕ,
        (State.start (fun _ => none) 0).run .two (fun _ => ⟨none, some "10.0.0.1"⟩)
          crashThenRepair = some s₁ ∧
        s₁.phase 1 = .counted ⟨2, 5, 1⟩ ∧ s₁.redis "rate_limit:10.0.0.1" = some ⟨2, none⟩ ∧
        s₁.step .two (fun _ => ⟨none, some "10.0.0.1"⟩) (.run 1) = some s₂ ∧
        s₂.run .two (fun _ => ⟨none, some "10.0.0.1"⟩) [.run 1, .tick 1001] = some s₃ ∧
        (s₁.clock = 5 ∧ s₃.clock = 1006) ∧
        s₁.lives (Request.key ⟨none, some "10.0.0.1"⟩) = 1 ∧
        s₃.lives (Request.key ⟨none, some "10.0.0.1"⟩) = 1 ∧ s₃.phase 2 = .arrived :=
    ⟨_, _, _, rfl, rfl, rfl, rfl, rfl, ⟨rfl, rfl⟩, rfl, rfl, rfl⟩
  have hlater : s₁.clock + Env.two.window < s₃.clock := by
    rw [hclock.1, hclock.2]
    decide
  -- a window after the repair the next request begins a new life
  have hcases := (recovers_of_run (fun _ _ _ h => by cases h) hrun₁ hp hstep hrun₂).2 hlater
  rcases hcases with ⟨-, -, hnext⟩ | ⟨hlt, -⟩
  · obtain ⟨s₄, hs₄, hphase⟩ := hnext 2 harrived rfl rfl
    refine ⟨s₁, s₂, s₃, s₄, hrun₁, hredis, hstep, hrun₂, hs₄, ?_⟩
    rw [hphase, hclock.2, hlives₃]
  · rw [hlives, hlives₃] at hlt
    exact absurd hlt (Nat.lt_irrefl 1)

end ScalableBooking.RateLimit
