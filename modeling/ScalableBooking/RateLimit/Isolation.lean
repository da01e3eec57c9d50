import ScalableBooking.LbProxy.Headers
import ScalableBooking.RateLimit.Lifetimes

/-!
# One budget for all clients

Who a client is, the limiter learns over three hops. The ingress sends every request to lb-proxy
over a connection of its own; lb-proxy writes the address of its peer into `X-Forwarded-For`; the
framework reads it there, because it trusts lb-proxy. The peer of lb-proxy is the ingress, so all
requests are counted under the address of the ingress (`Chain.key_request`).

Hence the limiter keeps the clients apart in just those runs in which only one of them comes
(`isolated_iff_of_run`). Otherwise a client that spends the budget spends it for all the others
(`shared_budget`).
-/

namespace ScalableBooking.RateLimit

open ExpiringCounter LbProxy

/-! ### The hops -/

/-- A request as a client sends it. -/
structure External where
  client : String
  headers : Headers
  routeUrl : Option String

/-- The way of the requests `p`, each with the headers that the ingress makes of the client's, the
port from which the ingress sends it, the instance of lb-proxy that receives it and the backend
that this one chooses. `trusts` is what the framework makes of `TRUST_PROXY_ADDRESSES`, and
`proxyAddr` finds the client from the peer and the values of `X-Forwarded-For`. -/
structure Chain (P : Type) where
  external : P → External
  ingress : String
  ingressHeaders : External → Headers
  ingressPort : P → ℕ
  lbProxy : P → String
  host : P → String
  trusts : String → Bool
  proxyAddr : (String → Bool) → String → List String → String

namespace Chain

variable {P : Type}

/-- The headers with which lb-proxy sends the request on. -/
def headers (chain : Chain P) (p : P) : Headers :=
  outHeaders (chain.ingressHeaders (chain.external p)) (chain.host p)
    ⟨chain.ingress, chain.ingressPort p⟩

/-- The request as the limiter reads it. -/
def request (chain : Chain P) (p : P) : Request where
  routeUrl := (chain.external p).routeUrl
  ip := some (chain.proxyAddr chain.trusts (chain.lbProxy p) (chain.headers p "x-forwarded-for"))

/-- The IP address of the client. -/
def client (chain : Chain P) (p : P) : String := (chain.external p).client

/-- The request comes to the limiter in this run, on a route that is not exempt. -/
def Limited (chain : Chain P) (es : List (Event P)) (p : P) : Prop :=
  .run p ∈ es ∧ (chain.request p).exempt = false

/-- Every request is counted under the address of the ingress. -/
theorem key_request {chain : Chain P} (htrusts : ∀ p, chain.trusts (chain.lbProxy p) = true)
    (hproxyAddr : ∀ peer ip, chain.trusts peer = true →
      chain.proxyAddr chain.trusts peer [ip] = ip) (p : P) :
    (chain.request p).key = "rate_limit:" ++ chain.ingress := by
  have hfor : chain.headers p "x-forwarded-for" = [chain.ingress] :=
    outHeaders_forwardedFor _ _ _
  rw [Request.key, request, hfor, hproxyAddr _ _ (htrusts p)]
  rfl

end Chain

/-! ### Who is counted -/

namespace State

variable {P : Type} [DecidableEq P] {env : Env} {requests : P → Request} {s s' : State P}

theorem count_of_phase {q : P} {phase : Phase} (h : s'.phase = Function.update s.phase q phase)
    (p : P) : s'.count p = if p = q then phase.count else s.count p := by
  rw [count, h, Function.update_apply]
  split
  · rfl
  · rfl

/-- A request that only goes on is not counted again. -/
theorem isSome_count_forward {q : P} {phase : Phase} (phase' : Phase)
    (hphase : s'.phase = Function.update s.phase q phase') (hq : s.phase q = phase)
    (hcount : phase'.count = phase.count) (h : phase.count.isSome ∨ (requests q).exempt = true)
    (p : P) :
    (s'.count p).isSome ↔
      (s.count p).isSome ∨ Event.run q = .run p ∧ (requests p).exempt = false := by
  rw [count_of_phase hphase p]
  by_cases hp : p = q
  · subst hp
    obtain hsome | hexempt := h
    · simp [count, hq, hcount, hsome]
    · simp [count, hq, hcount, hexempt]
  · simp [hp, Ne.symm hp]

/-- A step counts the request that runs, unless it is exempt, and no other. -/
theorem isSome_count_of_step {e : Event P} (hs : s.step env requests e = some s') (p : P) :
    (s'.count p).isSome ↔
      (s.count p).isSome ∨ e = .run p ∧ (requests p).exempt = false := by
  cases effect_of_step hs with
  | tick d => simp [count]
  | exempt q hq hexempt => exact isSome_count_forward .exempted rfl hq rfl (.inr hexempt) p
  | incr q hq hexempt =>
    -- the only step that gives a request its count
    rw [count_of_phase (congrArg (Function.update · q _) (s.phase_incr _)) p]
    by_cases hp : p = q
    · subst hp
      simp [hexempt, Phase.count]
    · simp [hp, Ne.symm hp]
  | expireNx q c hq =>
    have hphase := congrArg (Function.update · q (.windowed c))
      (s.phase_expireNx (requests q).key env.windowSeconds)
    exact isSome_count_forward (.windowed c) hphase hq rfl (.inl rfl) p
  | reject q c hq _ =>
    exact isSome_count_forward (.rejected RateLimitError c) rfl hq rfl (.inl rfl) p
  | pass q c hq _ => exact isSome_count_forward (.admitted c) rfl hq rfl (.inl rfl) p
  | crash q =>
    rw [count_of_phase rfl p]
    by_cases hp : p = q
    · subst hp
      simp [count, Phase.count]
    · simp [hp]
  | expire key value t _ _ => simp [count]

theorem isSome_count_of_run {es : List (Event P)} (hrun : s.run env requests es = some s') (p : P) :
    (s'.count p).isSome ↔
      (s.count p).isSome ∨ .run p ∈ es ∧ (requests p).exempt = false := by
  induction es generalizing s with
  | nil =>
    cases hrun
    simp
  | cons e es ih =>
    obtain ⟨s₁, hs, hrun⟩ := Option.bind_eq_some_iff.mp hrun
    rw [ih hrun, isSome_count_of_step hs, List.mem_cons, or_assoc, ← or_and_right, eq_comm (b := e)]

end State

/-! ### Isolation -/

section Isolation

variable {P : Type} [DecidableEq P] {env : Env} {s : State P}

/-- The clients are kept apart: those have one key that are one client, and a request is rejected
because of requests of its own client only, more of them than the limit in one life of the key. -/
structure State.Isolated (env : Env) (chain : Chain P) (s : State P) : Prop where
  keys : ∀ p q, (s.count p).isSome → (s.count q).isSome →
    ((chain.request p).key = (chain.request q).key ↔ chain.client p = chain.client q)
  rejected : ∀ p e c, s.phase p = .rejected e c → ∃ A : Finset P, env.maxRequests < A.card ∧
    ∀ q ∈ A, chain.client q = chain.client p ∧ (chain.request q).key = (chain.request p).key ∧
      ∃ c', s.count q = some c' ∧ c'.life = c.life

/-- The requests of the life in which a request is rejected are more than the limit. -/
theorem State.exists_card_of_rejected {requests : P → Request} {clock : ℕ} {es : List (Event P)}
    (hrun : (State.start (fun _ => none) clock).run env requests es = some s)
    {p : P} {e : AppError} {c : Count} (hp : s.phase p = .rejected e c) :
    ∃ A : Finset P, env.maxRequests < A.card ∧ ∀ q ∈ A, (requests q).key = (requests p).key ∧
      ∃ c', s.count q = some c' ∧ c'.life = c.life := by
  have hlt := (((Decided.start _ _).run hrun).rejected p e c hp).2
  have hfilled : Filled (s.keyAt requests (requests p).key) := by
    refine State.keyAt_run (fun _ _ hk hs => hk.step hs) ?_ hrun
    rw [State.keyAt_start]
    exact Filled.start clock
  have hgiven : (s.keyAt requests (requests p).key).given p = some c := by
    simp [State.keyAt, State.count, hp, Phase.count]
  obtain ⟨A, hcard, hA⟩ := hfilled.exists_card hgiven
  refine ⟨A, hcard ▸ hlt, ?_⟩
  intro q hq
  obtain ⟨c', hc', hlife⟩ := hA q hq
  obtain ⟨hkey, hc'⟩ := Option.ite_none_right_eq_some.mp hc'
  exact ⟨hkey, c', hc', hlife⟩

/-- From an empty Redis, the clients are kept apart in just those runs in which the requests that
are not exempt come from one client. -/
theorem isolated_iff_of_run {chain : Chain P}
    (htrusts : ∀ p, chain.trusts (chain.lbProxy p) = true)
    (hproxyAddr : ∀ peer ip, chain.trusts peer = true →
      chain.proxyAddr chain.trusts peer [ip] = ip)
    {clock : ℕ} {es : List (Event P)}
    (hrun : (State.start (fun _ => none) clock).run env chain.request es = some s) :
    s.Isolated env chain ↔
      ∀ p q, chain.Limited es p → chain.Limited es q → chain.client p = chain.client q := by
  -- the limiter takes the ingress for the client, so all requests have one key
  have hkey (p q : P) : (chain.request p).key = (chain.request q).key :=
    (Chain.key_request htrusts hproxyAddr p).trans (Chain.key_request htrusts hproxyAddr q).symm
  have hcounted (p : P) : (s.count p).isSome ↔ chain.Limited es p := by
    rw [State.isSome_count_of_run hrun]
    exact or_iff_right Bool.false_ne_true
  refine ⟨?_, ?_⟩
  · intro h p q hp hq
    exact (h.keys p q ((hcounted p).mpr hp) ((hcounted q).mpr hq)).mp (hkey p q)
  · intro h
    refine ⟨?_, ?_⟩
    · intro p q hp hq
      exact ⟨fun _ => h p q ((hcounted p).mp hp) ((hcounted q).mp hq), fun _ => hkey p q⟩
    · intro p e c hp
      obtain ⟨A, hcard, hA⟩ := State.exists_card_of_rejected hrun hp
      refine ⟨A, hcard, ?_⟩
      intro q hq
      obtain ⟨hkey, c', hc', hlife⟩ := hA q hq
      have hp' : (s.count p).isSome := by
        rw [State.count, hp]
        rfl
      have hq' : (s.count q).isSome := Option.isSome_of_eq_some hc'
      exact ⟨h q p ((hcounted q).mp hq') ((hcounted p).mp hp'), hkey, c', hc', hlife⟩

end Isolation

/-! ### Two clients -/

/-- The address that is nearest to the server and not trusted, or else the farthest. -/
def nearest (trusts : String → Bool) (addr : String) : List String → String
  | [] => addr
  | next :: rest => if trusts addr then nearest trusts next rest else addr

/-- The cluster, with these clients. -/
def deployed (client : ℕ → String) : Chain ℕ where
  external p := ⟨client p, fun _ => [], some "/events"⟩
  ingress := "10.244.0.5"
  ingressHeaders external := external.headers.insert "x-real-ip" external.client
  ingressPort p := 40000 + p
  lbProxy _ := "10.244.0.7"
  host _ := "booking-backend-0.booking-backend:3000"
  trusts ip := ip ∈ ["127.0.0.1", "10.244.0.5", "10.244.0.7"]
  proxyAddr trusts peer forwarded := nearest trusts peer forwarded.reverse

theorem proxyAddr_deployed (client : ℕ → String) (peer ip : String)
    (h : (deployed client).trusts peer = true) :
    (deployed client).proxyAddr (deployed client).trusts peer [ip] = ip :=
  if_pos h

section Burst

variable {env : Env} {requests : ℕ → Request} {key : String} {s : State ℕ} {n : ℕ}

/-- So many requests, one after another. -/
def burst : ℕ → List (Event ℕ)
  | 0 => []
  | n + 1 => burst n ++ [.run n, .run n, .run n]

/-- After `n` requests in a moment. -/
structure Burst (env : Env) (key : String) (n : ℕ) (s : State ℕ) : Prop where
  counter : s.live key = if n = 0 then none else some ⟨n, some (s.clock + env.window)⟩
  arrived : ∀ p, n ≤ p → s.phase p = .arrived
  rejected : ∀ p, env.maxRequests ≤ p → p < n → ∃ c, s.phase p = .rejected RateLimitError c

theorem State.run_append {P : Type} [DecidableEq P] {requests : P → Request} {s : State P}
    (es es' : List (Event P)) :
    s.run env requests (es ++ es') =
      (s.run env requests es).bind fun s' => s'.run env requests es' := by
  induction es generalizing s with
  | nil => rfl
  | cons e es ih =>
    simp only [List.cons_append, State.run, Option.bind_assoc]
    exact Option.bind_congr fun s' _ => ih

namespace State

theorem live_of_redis {counter : Counter} (h : s.redis key = some counter)
    (ht : ∀ t, counter.expiresAt = some t → s.clock ≤ t) : s.live key = some counter := by
  refine Option.filter_eq_some_iff.mpr ⟨h, ?_⟩
  cases hexpires : counter.expiresAt with
  | none => rfl
  | some t => exact decide_eq_true (ht t hexpires)

theorem clock_incr (s : State ℕ) (key : String) : (s.incr key).1.clock = s.clock := by
  simp only [incr]
  split <;> rfl

theorem clock_expireNx (s : State ℕ) (key : String) (seconds : ℕ) :
    (s.expireNx key seconds).clock = s.clock := by
  simp only [expireNx]
  split <;> rfl

theorem goto_goto (s : State ℕ) (p : ℕ) (phase phase' : Phase) :
    (s.goto p phase).goto p phase' = s.goto p phase' := by
  simp only [goto, Function.update_idem]

theorem expireNx_goto (s : State ℕ) (key : String) (seconds p : ℕ) (phase : Phase) :
    (s.goto p phase).expireNx key seconds = (s.expireNx key seconds).goto p phase := by
  have hlive : (s.goto p phase).live key = s.live key := rfl
  simp only [expireNx, hlive]
  split <;> rfl

/-- The first request of a life gives the key its deadline. -/
theorem live_expireNx_of_none (h : s.live key = none) :
    ((s.incr key).1.expireNx key env.windowSeconds).live key =
      some ⟨1, some (s.clock + env.window)⟩ := by
  have hlive : (s.incr key).1.live key = some ⟨1, none⟩ := by
    simp only [incr, h]
    exact live_of_redis (Function.update_self _ _ _) (by rintro _ ⟨⟩)
  simp only [expireNx, hlive]
  refine live_of_redis ?_ ?_
  · rw [← clock_incr s key]
    exact Function.update_self _ _ _
  · rintro _ ⟨⟩
    rw [← clock_incr s key]
    exact Nat.le_add_right _ _

/-- The next one raises the counter and leaves the deadline. -/
theorem live_expireNx_of_some {value t : ℕ} (h : s.live key = some ⟨value, some t⟩) :
    ((s.incr key).1.expireNx key env.windowSeconds).live key = some ⟨value + 1, some t⟩ := by
  have ht : s.clock ≤ t := by simpa using (Option.filter_eq_some_iff.mp h).2
  have hlive : (s.incr key).1.live key = some ⟨value + 1, some t⟩ := by
    simp only [incr, h]
    refine live_of_redis (Function.update_self _ _ _) ?_
    rintro _ ⟨⟩
    exact ht
  simp only [expireNx, hlive]

end State

/-- Where a request ends that is given this number. -/
def verdict (env : Env) (c : Count) : Phase :=
  if c.current > env.maxRequests then .rejected RateLimitError c else .admitted c

/-- A request that runs from its arrival to its end. -/
theorem State.run_alone (hphase : s.phase n = .arrived) (hexempt : (requests n).exempt = false) :
    s.run env requests [.run n, .run n, .run n] =
      some (((s.incr (requests n).key).1.expireNx (requests n).key env.windowSeconds).goto n
        (verdict env (s.incr (requests n).key).2)) := by
  set s₁ := (s.incr (requests n).key).1
  set c := (s.incr (requests n).key).2
  have h₁ : s.step env requests (.run n) = some (s₁.goto n (.counted c)) := by
    simp only [step, hphase, hexempt]
    rfl
  have h₂ : (s₁.goto n (.counted c)).step env requests (.run n) =
      some ((s₁.expireNx (requests n).key env.windowSeconds).goto n (.windowed c)) := by
    have hcounted : (s₁.goto n (.counted c)).phase n = .counted c := Function.update_self _ _ _
    simp only [step, hcounted, expireNx_goto, goto_goto]
  have h₃ (s : State ℕ) : (s.goto n (.windowed c)).step env requests (.run n) =
      some (s.goto n (verdict env c)) := by
    have hwindowed : (s.goto n (.windowed c)).phase n = .windowed c := Function.update_self _ _ _
    simp only [step, hwindowed, goto_goto, verdict]
    split <;> rfl
  simp only [run, h₁, h₂, h₃, Option.bind_some]

/-- One request more. -/
theorem Burst.step (h : Burst env key n s) (hkey : (requests n).key = key)
    (hexempt : (requests n).exempt = false) :
    ∃ s', s.run env requests [.run n, .run n, .run n] = some s' ∧ Burst env key (n + 1) s' := by
  subst hkey
  refine ⟨_, State.run_alone (h.arrived n (Nat.le_refl _)) hexempt, ?_⟩
  have hclock (phase : Phase) : (((s.incr (requests n).key).1.expireNx (requests n).key
      env.windowSeconds).goto n phase).clock = s.clock :=
    (State.clock_expireNx _ _ _).trans (State.clock_incr _ _)
  have hphase : ((s.incr (requests n).key).1.expireNx (requests n).key env.windowSeconds).phase =
      s.phase := by rw [State.phase_expireNx, State.phase_incr]
  have hincr : (s.incr (requests n).key).2.current = n + 1 ∧
      ((s.incr (requests n).key).1.expireNx (requests n).key env.windowSeconds).live
        (requests n).key = some ⟨n + 1, some (s.clock + env.window)⟩ := by
    have hlive := h.counter
    -- the first request begins the window
    obtain rfl | hn := eq_or_ne n 0
    · rw [if_pos rfl] at hlive
      refine ⟨?_, State.live_expireNx_of_none hlive⟩
      simp only [State.incr, hlive]
    · rw [if_neg hn] at hlive
      refine ⟨?_, State.live_expireNx_of_some hlive⟩
      simp only [State.incr, hlive]
  refine ⟨?_, ?_, ?_⟩
  · rw [if_neg (Nat.succ_ne_zero n), hclock]
    exact hincr.2
  · intro p hp
    have hne : p ≠ n := Nat.ne_of_gt hp
    show Function.update _ n _ p = _
    rw [Function.update_of_ne hne, hphase]
    exact h.arrived p (Nat.le_of_succ_le hp)
  · intro p hle hp
    show ∃ c, Function.update _ n _ p = _
    obtain hlt | rfl := Nat.lt_succ_iff_lt_or_eq.mp hp
    · rw [Function.update_of_ne (Nat.ne_of_lt hlt), hphase]
      exact h.rejected p hle hlt
    · rw [Function.update_self, verdict, if_pos]
      · exact ⟨_, rfl⟩
      · rw [hincr.1]
        exact Nat.lt_succ_of_le hle

theorem Burst.start : Burst env key 0 (.start (fun _ => none) 0) where
  counter := rfl
  arrived _ _ := rfl
  rejected p _ hp := absurd hp (Nat.not_lt_zero p)

theorem Burst.run (env : Env) (hkey : ∀ p, (requests p).key = key)
    (hexempt : ∀ p, (requests p).exempt = false) (n : ℕ) :
    ∃ s, (State.start (fun _ => none) 0).run env requests (burst n) = some s ∧
      Burst env key n s := by
  induction n with
  | zero => exact ⟨_, rfl, .start⟩
  | succ n ih =>
    obtain ⟨s, hs, h⟩ := ih
    obtain ⟨s', hs', h'⟩ := h.step (hkey n) (hexempt n)
    refine ⟨s', ?_, h'⟩
    rw [burst, State.run_append, hs]
    exact hs'

end Burst

theorem key_deployed (client : ℕ → String) (p : ℕ) :
    ((deployed client).request p).key = "rate_limit:10.244.0.5" :=
  Chain.key_request (fun _ => rfl) (proxyAddr_deployed client) p

theorem isolated_iff_of_run_oneClient :
    ∃ s, (State.start (fun _ => none) 0).run .default
        (deployed fun _ => "203.0.113.1").request (burst 101) = some s ∧
      (∃ c, s.phase 100 = .rejected RateLimitError c) ∧
      s.Isolated .default (deployed fun _ => "203.0.113.1") := by
  obtain ⟨s, hrun, h⟩ := Burst.run .default (key_deployed fun _ => "203.0.113.1")
    (fun _ => rfl) 101
  refine ⟨s, hrun, h.rejected 100 (by decide) (by decide), ?_⟩
  exact (isolated_iff_of_run (fun _ => rfl) (proxyAddr_deployed _) hrun).mpr
    fun _ _ _ _ => rfl

/-- A hundred requests of one client, and the first one of another. -/
def hundredAndOne (p : ℕ) : String := if p = 100 then "203.0.113.2" else "203.0.113.1"

/-- The first request of a client is rejected, because another client has spent the budget. -/
theorem shared_budget :
    ∃ s, (State.start (fun _ => none) 0).run .default (deployed hundredAndOne).request
        (burst 101) = some s ∧
      (∀ q, (deployed hundredAndOne).client q = (deployed hundredAndOne).client 100 → q = 100) ∧
      (∃ c, s.phase 100 = .rejected RateLimitError c) ∧
      ¬ s.Isolated .default (deployed hundredAndOne) := by
  obtain ⟨s, hrun, h⟩ := Burst.run .default (key_deployed hundredAndOne)
    (fun _ => rfl) 101
  have honly : ∀ q, (deployed hundredAndOne).client q = (deployed hundredAndOne).client 100 →
      q = 100 := by
    intro q hq
    by_contra hne
    have hq' : hundredAndOne q = hundredAndOne 100 := hq
    rw [hundredAndOne, if_neg hne] at hq'
    exact absurd hq' (by decide)
  obtain ⟨c, hrejected⟩ := h.rejected 100 (by decide) (by decide)
  refine ⟨s, hrun, honly, ⟨c, hrejected⟩, ?_⟩
  intro hisolated
  obtain ⟨A, hcard, hA⟩ := hisolated.rejected 100 RateLimitError c hrejected
  -- a single request of this client has been counted
  have hsub : A ⊆ {100} := fun q hq => Finset.mem_singleton.mpr (honly q (hA q hq).1)
  have hle := Finset.card_le_card hsub
  rw [Finset.card_singleton] at hle
  exact absurd (Nat.lt_of_lt_of_le hcard hle) (by decide)

end ScalableBooking.RateLimit
