import ScalableBooking.LbProxy.Turn

/-!
# What the request counters count

The proxy has two kinds of request counters. `requests_total` goes up when a request is
dispatched, and the `total_requests` of a backend when an outcome is recorded for it. `/metrics`
shows the second one as the number of requests that have been routed to the backend. They differ
by the requests that have no outcome yet, by those whose handler was dropped before there was
one, and by those whose outbound request could not be built (`accounted_of_run`).
-/

namespace ScalableBooking.LbProxy

open RouterCore

/-! ### Marks -/

/-- What a step can do to the counters. -/
inductive Mark where
  | dispatched
  | rejected
  | recorded
deriving DecidableEq, Repr

/-- The mark of a request that has just arrived. -/
def Phase.mark : Phase → Option (Mark × ServerId)
  | dispatched sid => some (.dispatched, sid)
  | _ => none

namespace State

/-- A request is dispatched, its outbound request cannot be built, or its outcome is recorded. -/
noncomputable def mark (st : State) : Event → Option (Mark × ServerId)
  | .arrive req clock now => (st.arrive req clock now).requests.getLast?.bind Phase.mark
  | .build i outcome =>
    match st.requests[i]?, outcome with
    | some (.dispatched sid), .badTarget | some (.dispatched sid), .buildFailed =>
      some (.rejected, sid)
    | _, _ => none
  | .respond i _ _ _ =>
    match st.requests[i]? with
    | some (.awaiting sid) => some (.recorded, sid)
    | _ => none
  | _ => none

/-- The marks of a run. -/
noncomputable def marks (st : State) : List Event → List (Mark × ServerId)
  | [] => []
  | e :: events => (st.mark e).toList ++ (st.step e).elim [] fun st' => st'.marks events

/-- How often a mark comes. -/
noncomputable def count (st : State) (events : List Event) (m : Mark) (sid : ServerId) : ℕ :=
  (st.marks events).count (m, sid)

theorem marks_cons {st st' : State} {e : Event} (he : st.step e = some st')
    (events : List Event) : st.marks (e :: events) = (st.mark e).toList ++ st'.marks events := by
  simp [marks, he]

end State

/-! ### The counter of a backend -/

namespace ProxyState

/-- The number of outcomes that have been recorded for a backend. -/
def totalOf (p : ProxyState) (sid : ServerId) : Option (BitVec 64) :=
  (p.registry.lookup sid).map ServerHealth.totalRequests

/-- Two proxies with the same counters. -/
structure SameTotals (p p' : ProxyState) : Prop where
  total : ∀ sid, p'.totalOf sid = p.totalOf sid
  requestsTotal : p'.requestsTotal = p.requestsTotal

theorem SameTotals.refl (p : ProxyState) : SameTotals p p := ⟨fun _ => rfl, rfl⟩

theorem SameTotals.trans {p p' p'' : ProxyState} (h : SameTotals p p') (h' : SameTotals p' p'') :
    SameTotals p p'' :=
  ⟨fun sid => (h'.total sid).trans (h.total sid), h'.requestsTotal.trans h.requestsTotal⟩

/-- A pass over the registry. -/
theorem totalOf_mapWithKey {p p' : ProxyState} {f : ServerId → ServerHealth → ServerHealth}
    (hp : p'.registry = p.registry.mapWithKey f) (sid : ServerId) :
    p'.totalOf sid = (p.registry.lookup sid).map fun h => (f sid h).totalRequests := by
  unfold totalOf
  rw [hp, Finmap.lookup_mapWithKey, Option.map_map]
  rfl

theorem sameTotals_mapWithKey {p p' : ProxyState} {f : ServerId → ServerHealth → ServerHealth}
    (hp : p'.registry = p.registry.mapWithKey f)
    (hf : ∀ s h, (f s h).totalRequests = h.totalRequests)
    (htotal : p'.requestsTotal = p.requestsTotal) : SameTotals p p' := by
  refine ⟨fun sid => ?_, htotal⟩
  rw [totalOf_mapWithKey hp]
  unfold totalOf
  congr 1
  funext h
  exact hf sid h

theorem sameTotals_updateHealth (p : ProxyState) (sid : ServerId)
    {f : ServerHealth → ServerHealth} (hf : ∀ h, (f h).totalRequests = h.totalRequests) :
    SameTotals p (p.updateHealth sid f) := by
  refine sameTotals_mapWithKey rfl (fun s h => ?_) rfl
  split
  · exact hf h
  · rfl

theorem sameTotals_snapshotSignals (p : ProxyState) (clock : ServerId → Instant) :
    SameTotals p (p.snapshotSignals clock).2 :=
  sameTotals_mapWithKey rfl (fun _ _ => rfl) rfl

/-- Asking for the rate of errors records no request. -/
theorem totalRequests_errorRate (h : ServerHealth) (window : Duration) (now now' : Instant) :
    (h.errorRate window now now').2.totalRequests = h.totalRequests := by
  unfold ServerHealth.errorRate
  dsimp only
  split <;> rfl

theorem sameTotals_healthResponse (p : ProxyState) (clock : ServerId → Instant) :
    SameTotals p (p.healthResponse clock) :=
  sameTotals_mapWithKey rfl (fun _ _ => rfl) rfl

theorem sameTotals_metricsResponse (p : ProxyState) (clock : ServerId → Instant) :
    SameTotals p (p.metricsResponse clock) :=
  sameTotals_mapWithKey rfl (fun _ _ => totalRequests_errorRate _ _ _ _) rfl

theorem sameTotals_syncScoreboard {p p' : ProxyState} {clock : ServerId → Instant × Instant}
    {now : Instant} (h : p.syncScoreboard clock now = some p') : SameTotals p p' := by
  obtain ⟨scoreboard, -, rfl⟩ := Option.map_eq_some_iff.mp h
  refine sameTotals_mapWithKey rfl (fun s h => ?_) rfl
  unfold ServerHealth.prediction
  dsimp only
  split
  · rfl
  · exact totalRequests_errorRate _ _ _ _

theorem sameTotals_route (p : ProxyState) (signals : SignalMap) (now : Instant) :
    SameTotals p (p.route signals now).2 := by
  unfold route
  cases p.algorithm with
  | p2c => exact ⟨fun _ => rfl, rfl⟩
  | roundRobin =>
    dsimp only
    split <;> exact ⟨fun _ => rfl, rfl⟩

/-- An outcome adds one at its backend. -/
theorem totalOf_recordBackendHealth (p : ProxyState) (sid s : ServerId) (status : ℕ)
    (latency : Duration) (now : Instant) :
    (p.recordBackendHealth sid status latency now).totalOf s =
      (p.totalOf s).map fun c => if s = sid then c + 1 else c := by
  refine (totalOf_mapWithKey rfl s).trans ?_
  unfold totalOf
  rw [Option.map_map]
  congr 1
  funext h
  dsimp only [Function.comp]
  split
  · unfold ServerHealth.record ServerHealth.updateLatencyEma
    cases isServerError status <;> rfl
  · rfl

end ProxyState

/-! ### One step -/

/-- A request to `sid` has been dispatched, and its handler has neither given it up nor recorded an
outcome. -/
def Phase.unrecorded (sid : ServerId) : Phase → Bool
  | dispatched s => s = sid
  | awaiting s => s = sid
  | abandoned s => s = sid
  | streaming _ _ _ => false
  | closed _ => false
  | answered _ => false

namespace State

/-- How many requests to `sid` have no outcome. -/
def outstanding (st : State) (sid : ServerId) : ℕ := st.requests.countP (Phase.unrecorded sid)

theorem outstanding_push (st : State) (phase : Phase) (proxy : ProxyState) (sid : ServerId) :
    (st.push phase proxy).outstanding sid =
      st.outstanding sid + if phase.unrecorded sid then 1 else 0 := by
  unfold outstanding push
  rw [List.countP_append, List.countP_singleton]

theorem outstanding_move {st : State} {i : ℕ} {old : Phase} (hi : st.requests[i]? = some old)
    (phase : Phase) (proxy : ProxyState) (sid : ServerId) :
    (st.move i phase proxy).outstanding sid + (if old.unrecorded sid then 1 else 0) =
      st.outstanding sid + if phase.unrecorded sid then 1 else 0 :=
  countP_set_add _ _ _ hi _

end State

/-- What steps with the marks `ms` do to the counters. -/
structure Counted (ms : List (Mark × ServerId)) (st st' : State) : Prop where
  requestsTotal : st'.proxy.requestsTotal =
    st.proxy.requestsTotal + BitVec.ofNat 64 (ms.countP fun x => x.1 = .dispatched)
  total : ∀ sid, st'.proxy.totalOf sid =
    (st.proxy.totalOf sid).map fun c => c + BitVec.ofNat 64 (ms.count (.recorded, sid))
  outstanding : ∀ sid,
    st'.outstanding sid + ms.count (.rejected, sid) + ms.count (.recorded, sid) =
      st.outstanding sid + ms.count (.dispatched, sid)

namespace Counted

variable {st : State} {proxy : ProxyState} {i : ℕ} {old phase : Phase}

/-- Nothing is counted. -/
theorem nil (hsame : st.proxy.SameTotals proxy) {st' : State} (hproxy : st'.proxy = proxy)
    (hout : ∀ sid, st'.outstanding sid = st.outstanding sid) : Counted [] st st' := by
  subst hproxy
  refine ⟨?_, fun sid => ?_, fun sid => ?_⟩
  · rw [hsame.requestsTotal]
    simp
  · rw [hsame.total sid]
    simp
  · simpa using hout sid

theorem push (hsame : st.proxy.SameTotals proxy) (hphase : ∀ sid, phase.unrecorded sid = false) :
    Counted [] st (st.push phase proxy) := by
  refine nil hsame rfl fun sid => ?_
  rw [State.outstanding_push, hphase sid]
  rfl

theorem move (hi : st.requests[i]? = some old) (hsame : st.proxy.SameTotals proxy)
    (hphase : ∀ sid, phase.unrecorded sid = old.unrecorded sid) :
    Counted [] st (st.move i phase proxy) := by
  refine nil hsame rfl fun sid => ?_
  have hcount := State.outstanding_move hi phase proxy sid
  rw [hphase sid] at hcount
  exact Nat.add_right_cancel hcount

/-- A request is dispatched. -/
theorem dispatched (hsame : st.proxy.SameTotals proxy) (sid : ServerId) :
    Counted [(.dispatched, sid)] st (st.push (.dispatched sid)
      { proxy.updateHealth sid ServerHealth.begin with
        requestsTotal := proxy.requestsTotal + 1 }) := by
  have hbegin := hsame.trans
    (proxy.sameTotals_updateHealth sid (f := ServerHealth.begin) fun _ => rfl)
  refine ⟨?_, fun s => ?_, fun s => ?_⟩
  · show proxy.requestsTotal + 1 = _
    rw [hsame.requestsTotal]
    rfl
  · refine (hbegin.total s).trans ?_
    simp
  · rw [State.outstanding_push]
    by_cases hs : sid = s <;> simp [Phase.unrecorded, hs]

/-- A request to `sid` ends without an outcome. -/
theorem rejected {sid : ServerId} (hi : st.requests[i]? = some (.dispatched sid))
    (hsame : st.proxy.SameTotals proxy) {reply : Reply} :
    Counted [(.rejected, sid)] st (st.move i (.answered reply) proxy) := by
  refine ⟨?_, fun s => ?_, fun s => ?_⟩
  · show proxy.requestsTotal = _
    rw [hsame.requestsTotal]
    simp
  · refine (hsame.total s).trans ?_
    simp
  · have hcount := State.outstanding_move hi (.answered reply) proxy s
    by_cases hs : sid = s <;> simp [Phase.unrecorded, hs] at hcount ⊢ <;> omega

/-- The outcome of a request to `sid` is recorded. -/
theorem recorded {sid : ServerId} (hi : st.requests[i]? = some (.awaiting sid))
    (hsame : st.proxy.SameTotals proxy) (status : ℕ) (latency : Duration) (now : Instant)
    (hphase : ∀ s, phase.unrecorded s = false) :
    Counted [(.recorded, sid)] st
      (st.move i phase (proxy.recordBackendHealth sid status latency now)) := by
  refine ⟨?_, fun s => ?_, fun s => ?_⟩
  · show proxy.requestsTotal = _
    rw [hsame.requestsTotal]
    simp
  · refine (proxy.totalOf_recordBackendHealth sid s status latency now).trans ?_
    rw [hsame.total s]
    by_cases hs : s = sid
    · simp [hs]
    · simp [hs, Ne.symm hs]
  · have hcount := State.outstanding_move hi phase
      (proxy.recordBackendHealth sid status latency now) s
    rw [hphase s] at hcount
    by_cases hs : sid = s <;> simp [Phase.unrecorded, hs] at hcount ⊢ <;> omega

theorem trans {ms ms' : List (Mark × ServerId)} {st' st'' : State} (h : Counted ms st st')
    (h' : Counted ms' st' st'') : Counted (ms ++ ms') st st'' := by
  refine ⟨?_, fun sid => ?_, fun sid => ?_⟩
  · rw [h'.requestsTotal, h.requestsTotal, List.countP_append, BitVec.ofNat_add, BitVec.add_assoc]
  · rw [h'.total, h.total, Option.map_map, List.count_append]
    congr 1
    funext c
    simp only [Function.comp, BitVec.ofNat_add, BitVec.add_assoc]
  · have h₁ := h.outstanding sid
    have h₂ := h'.outstanding sid
    simp only [List.count_append]
    omega

end Counted

section Step

variable {st st' : State} {i : ℕ}

/-- What `arrive` ends in: an answer of the proxy itself, or a dispatch to a backend of the
registry. -/
theorem State.arrive_cases (st : State) (req : Request) (clock : ServerId → Instant)
    (now : Instant) :
    (∃ reply proxy, st.proxy.SameTotals proxy ∧
        st.arrive req clock now = st.push (.answered reply) proxy) ∨
      ∃ sid proxy, st.proxy.SameTotals proxy ∧
        st.arrive req clock now = st.push (.dispatched sid)
          { proxy.updateHealth sid ServerHealth.begin with
            requestsTotal := proxy.requestsTotal + 1 } := by
  unfold State.arrive
  split
  · exact .inl ⟨_, _, ProxyState.sameTotals_healthResponse _ _, rfl⟩
  split
  · exact .inl ⟨_, _, ProxyState.sameTotals_metricsResponse _ _, rfl⟩
  have hsame : st.proxy.SameTotals
      ((st.proxy.snapshotSignals clock).2.route (st.proxy.snapshotSignals clock).1 now).2 :=
    (ProxyState.sameTotals_snapshotSignals _ _).trans (ProxyState.sameTotals_route _ _ _)
  dsimp only
  split
  · exact .inl ⟨_, _, hsame, rfl⟩
  · split
    · exact .inl ⟨_, _, hsame, rfl⟩
    · exact .inr ⟨_, _, hsame, rfl⟩

theorem State.mark_arrive {req : Request} {clock : ServerId → Instant} {now : Instant}
    {phase : Phase} {proxy : ProxyState} (h : st.arrive req clock now = st.push phase proxy) :
    st.mark (.arrive req clock now) = phase.mark := by
  unfold State.mark
  dsimp only
  rw [h]
  simp [State.push]

/-- **The step lemma.** -/
theorem counted_step {e : Event} (he : st.step e = some st') :
    Counted (st.mark e).toList st st' := by
  cases e with
  | arrive req clock now =>
    obtain rfl := Option.some.inj he
    obtain ⟨reply, proxy, hsame, harrive⟩ | ⟨sid, proxy, hsame, harrive⟩ :=
      st.arrive_cases req clock now
    · rw [State.mark_arrive harrive, harrive]
      exact .push hsame fun _ => rfl
    · rw [State.mark_arrive harrive, harrive]
      exact .dispatched hsame sid
  | build i outcome =>
    obtain ⟨sid, hi, rfl⟩ := State.step_build he
    have hsame := st.proxy.sameTotals_updateHealth sid (f := ServerHealth.decrement) fun _ => rfl
    simp only [State.mark, hi]
    cases outcome with
    | badTarget => exact .rejected hi hsame
    | buildFailed => exact .rejected hi hsame
    | built => exact .move hi (.refl _) fun _ => rfl
  | respond i upstream latency now =>
    obtain ⟨sid, hi, rfl⟩ := State.step_respond he
    have hsame := st.proxy.sameTotals_updateHealth sid (f := ServerHealth.decrement) fun _ => rfl
    simp only [State.mark, hi]
    cases upstream with
    | ok status => exact .recorded hi (.refl _) _ _ _ fun _ => rfl
    | error => exact .recorded hi hsame _ _ _ fun _ => rfl
  | clientGone i =>
    -- the handler is gone, and nothing is ever recorded
    obtain ⟨sid, hi, rfl⟩ := State.step_clientGone he
    exact .move hi (.refl _) fun _ => rfl
  | pollBody i poll =>
    obtain ⟨sid, status, body, hi, rfl⟩ := State.step_pollBody he
    refine .move hi ?_ fun _ => rfl
    unfold State.onDone
    split
    · exact st.proxy.sameTotals_updateHealth sid fun _ => rfl
    · exact .refl _
  | dropBody i =>
    obtain ⟨sid, status, body, hi, rfl⟩ := State.step_dropBody he
    refine .move hi ?_ fun _ => rfl
    unfold State.onDone
    split
    · exact st.proxy.sameTotals_updateHealth sid fun _ => rfl
    · exact .refl _
  | syncScoreboard clock now =>
    obtain ⟨proxy, hproxy, rfl⟩ := State.step_syncScoreboard he
    exact .nil (ProxyState.sameTotals_syncScoreboard hproxy) rfl fun _ => rfl

end Step

/-! ### Runs -/

theorem counted_run {st st' : State} {events : List Event} (hrun : st.run events = some st') :
    Counted (st.marks events) st st' := by
  induction events generalizing st with
  | nil =>
    obtain rfl : st = st' := Option.some.inj hrun
    exact .nil (.refl _) rfl fun _ => rfl
  | cons e events ih =>
    rw [State.run_cons] at hrun
    obtain ⟨st₁, he, hrun⟩ := Option.bind_eq_some_iff.mp hrun
    rw [State.marks_cons he]
    exact (counted_step he).trans (ih hrun)

/-- **What the counters count.** In every run `requests_total` is the number of dispatches. The
counter of a backend is the number of outcomes recorded for it, which is the number of dispatches to
it but for those without an outcome and those whose outbound request could not be built. Both are
modulo `2^64`. -/
theorem accounted_of_run {cfg : Config} {created : ℕ → Instant} {seed : BitVec 64}
    {events : List Event} {st : State} (hrun : (State.init cfg created seed).run events = some st) :
    st.proxy.requestsTotal = BitVec.ofNat 64
        (((State.init cfg created seed).marks events).countP fun x => x.1 = .dispatched) ∧
      ∀ sid ∈ backendIds cfg.backendPool.length, ∃ health,
        st.proxy.registry.lookup sid = some health ∧
        health.totalRequests =
          BitVec.ofNat 64 ((State.init cfg created seed).count events .recorded sid) ∧
        (State.init cfg created seed).count events .dispatched sid =
          (State.init cfg created seed).count events .recorded sid +
            (State.init cfg created seed).count events .rejected sid + st.outstanding sid := by
  have h := counted_run hrun
  refine ⟨?_, fun sid hsid => ?_⟩
  · rw [h.requestsTotal]
    exact BitVec.zero_add _
  · have htotal := h.total sid
    have hnew : (State.init cfg created seed).proxy.totalOf sid = some 0 := by
      show ((ProxyState.new cfg created seed).registry.lookup sid).map _ = _
      rw [ProxyState.lookup_registry_new hsid]
      rfl
    rw [hnew] at htotal
    obtain ⟨health, hlookup, hhealth⟩ := Option.map_eq_some_iff.mp htotal
    refine ⟨health, hlookup, ?_, ?_⟩
    · rw [hhealth]
      exact BitVec.zero_add _
    · have hout := h.outstanding sid
      have hzero : (State.init cfg created seed).outstanding sid = 0 := rfl
      unfold State.count
      omega

/-- Three requests. The first one is answered, the client of the second one goes away, and the third
one cannot be built. -/
def threePings : List Event :=
  [ping, ping, ping, .build 0 .built, .respond 0 (.ok 200) 5 10, .dropBody 0, .build 1 .built,
    .clientGone 1, .build 2 .badTarget]

/-- Only the second one is left without an outcome. -/
theorem run_threePings : ∃ st,
    (State.init oneBackend (fun i => i) 1).run threePings = some st ∧ st.outstanding ⟨0⟩ = 1 ∧
      st.requests =
        [.closed 200, .abandoned ⟨0⟩, .answered (.text 502 "invalid upstream target")] ∧
      (State.init oneBackend (fun i => i) 1).marks threePings =
        [(.dispatched, ⟨0⟩), (.dispatched, ⟨0⟩), (.dispatched, ⟨0⟩), (.recorded, ⟨0⟩),
          (.rejected, ⟨0⟩)] := by
  -- the three arrivals, one after the other
  have halg : oneBackend.algorithm = .roundRobin := rfl
  have h₀ := inTurn_init halg (fun i => i) 1
  obtain ⟨proxy₁, h₁, hc₁, hs₁⟩ := h₀.step_ping Nat.one_pos rfl []
  obtain ⟨proxy₂, h₂, hc₂, hs₂⟩ := h₁.step_ping Nat.one_pos hc₁ [.dispatched ⟨0⟩]
  obtain ⟨proxy₃, -, -, hs₃⟩ := h₂.step_ping Nat.one_pos hc₂ [.dispatched ⟨0⟩, .dispatched ⟨0⟩]
  replace hs₁ : (State.init oneBackend (fun i => i) 1).step ping =
    some ⟨proxy₁, [.dispatched ⟨0⟩]⟩ := hs₁
  replace hs₂ : (⟨proxy₁, [.dispatched ⟨0⟩]⟩ : State).step ping =
    some ⟨proxy₂, [.dispatched ⟨0⟩, .dispatched ⟨0⟩]⟩ := hs₂
  replace hs₃ : (⟨proxy₂, [.dispatched ⟨0⟩, .dispatched ⟨0⟩]⟩ : State).step ping =
    some ⟨proxy₃, [.dispatched ⟨0⟩, .dispatched ⟨0⟩, .dispatched ⟨0⟩]⟩ := hs₃
  obtain ⟨st, hrest, hout, hrequests⟩ : ∃ st,
      (⟨proxy₃, [.dispatched ⟨0⟩, .dispatched ⟨0⟩, .dispatched ⟨0⟩]⟩ : State).run
        (threePings.drop 3) = some st ∧ st.outstanding ⟨0⟩ = 1 ∧ st.requests =
          [.closed 200, .abandoned ⟨0⟩, .answered (.text 502 "invalid upstream target")] :=
    ⟨_, rfl, rfl, rfl⟩
  refine ⟨st, ?_, hout, hrequests, ?_⟩
  · rw [threePings, State.run_cons, hs₁, Option.bind_some, State.run_cons, hs₂, Option.bind_some,
      State.run_cons, hs₃, Option.bind_some]
    exact hrest
  · have hmark₁ := @State.mark_arrive _ _ _ _ (.dispatched ⟨0⟩) _ (Option.some.inj hs₁)
    have hmark₂ := @State.mark_arrive _ _ _ _ (.dispatched ⟨0⟩) _ (Option.some.inj hs₂)
    have hmark₃ := @State.mark_arrive _ _ _ _ (.dispatched ⟨0⟩) _ (Option.some.inj hs₃)
    rw [threePings, State.marks_cons hs₁, State.marks_cons hs₂, State.marks_cons hs₃, ping, hmark₁,
      hmark₂, hmark₃]
    rfl

theorem accounted_of_run_threePings : ∃ st health,
    (State.init oneBackend (fun i => i) 1).run threePings = some st ∧
      st.proxy.requestsTotal = 3 ∧ st.proxy.registry.lookup ⟨0⟩ = some health ∧
      health.totalRequests = 1 ∧
      (State.init oneBackend (fun i => i) 1).count threePings .dispatched ⟨0⟩ = 3 ∧
      (State.init oneBackend (fun i => i) 1).count threePings .recorded ⟨0⟩ = 1 ∧
      (State.init oneBackend (fun i => i) 1).count threePings .rejected ⟨0⟩ = 1 ∧
      st.outstanding ⟨0⟩ = 1 := by
  obtain ⟨st, hrun, hout, -, hmarks⟩ := run_threePings
  obtain ⟨htotal, hbackend⟩ := accounted_of_run hrun
  obtain ⟨health, hlookup, hrecorded, -⟩ := hbackend ⟨0⟩ (List.mem_singleton.mpr rfl)
  rw [State.count] at hrecorded
  rw [hmarks] at htotal hrecorded
  simp only [State.count, hmarks]
  exact ⟨st, health, hrun, htotal, hlookup, hrecorded, rfl, rfl, rfl, hout⟩

end ScalableBooking.LbProxy
