import ScalableBooking.LbProxy.Proxy

/-!
# In-flight accounting

A request *occupies* a backend from the call of `begin` to the matching `decrement`, and in
every run the counter of a backend is the number of requests that occupy it, modulo `2^64`
(`balanced_run`). The requests that occupy a backend are those the proxy still works on
(`Phase.isHeld`) and those whose handler was dropped while it awaited the upstream client:
no code of the handler runs after that, so nothing ever releases the backend. Runs in which
no handler is dropped there have no such requests, and the counter is exact
(`inFlight_eq_held`).
-/

namespace ScalableBooking.LbProxy

open RouterCore

/-! ### Counting a list of phases -/

theorem countP_set_add {α : Type} (p : α → Bool) (l : List α) (i : ℕ) {x : α}
    (hx : l[i]? = some x) (y : α) :
    (l.set i y).countP p + (if p x then 1 else 0) = l.countP p + if p y then 1 else 0 := by
  induction l generalizing i with
  | nil => simp at hx
  | cons a l ih =>
    -- the position is the head, or it is one of the tail
    cases i with
    | zero =>
      obtain rfl : a = x := by simpa using hx
      rw [List.set_cons_zero, List.countP_cons, List.countP_cons]
      omega
    | succ i =>
      have ih' := ih i (by simpa using hx)
      rw [List.set_cons_succ, List.countP_cons, List.countP_cons]
      omega

namespace Phase

/-- The proxy still works on a request it has dispatched to `sid`: the handler is running,
or the response body is alive, neither ended nor failed nor dropped. -/
def isHeld (sid : ServerId) : Phase → Bool
  | dispatched s => s = sid
  | awaiting s => s = sid
  | streaming s _ body => s = sid ∧ body.done = false
  | closed _ => false
  | answered _ => false
  | abandoned _ => false

/-- The handler of a request to `sid` was dropped at the await. -/
def isAbandoned (sid : ServerId) : Phase → Bool
  | abandoned s => s = sid
  | _ => false

/-- `begin` has been called for a request to `sid` and `decrement` has not. -/
def occupies (sid : ServerId) (phase : Phase) : Bool :=
  phase.isHeld sid || phase.isAbandoned sid

theorem occupies_of_not_abandoned {sid : ServerId} {phase : Phase}
    (h : phase.isAbandoned sid = false) : phase.occupies sid = phase.isHeld sid := by
  rw [occupies, h, Bool.or_false]

end Phase

namespace State

/-- How many requests to `sid` have a running handler or a body that is alive. -/
def held (st : State) (sid : ServerId) : ℕ := st.requests.countP (Phase.isHeld sid)

/-- How many requests have been begun at `sid` and not been released. -/
def occupied (st : State) (sid : ServerId) : ℕ := st.requests.countP (Phase.occupies sid)

theorem occupied_push (st : State) (phase : Phase) (proxy : ProxyState) (sid : ServerId) :
    (st.push phase proxy).occupied sid =
      st.occupied sid + if phase.occupies sid then 1 else 0 := by
  unfold occupied push
  rw [List.countP_append, List.countP_singleton]

theorem occupied_move {st : State} {i : ℕ} {old : Phase} (hi : st.requests[i]? = some old)
    (phase : Phase) (proxy : ProxyState) (sid : ServerId) :
    (st.move i phase proxy).occupied sid + (if old.occupies sid then 1 else 0) =
      st.occupied sid + if phase.occupies sid then 1 else 0 :=
  countP_set_add _ _ _ hi _

end State

/-! ### The counters -/

namespace ProxyState

/-- The in-flight counter of a backend. -/
def inFlightOf (p : ProxyState) (sid : ServerId) : Option (BitVec 64) :=
  (p.registry.lookup sid).map ServerHealth.inFlight

/-- Two proxies with the same counters. -/
def SameInFlight (p p' : ProxyState) : Prop := ∀ sid, p'.inFlightOf sid = p.inFlightOf sid

theorem SameInFlight.refl (p : ProxyState) : SameInFlight p p := fun _ => rfl

theorem SameInFlight.trans {p p' p'' : ProxyState} (h : SameInFlight p p')
    (h' : SameInFlight p' p'') : SameInFlight p p'' := fun sid => (h' sid).trans (h sid)

/-- A pass over the registry that leaves every counter alone. -/
theorem sameInFlight_mapWithKey {p p' : ProxyState} {f : ServerId → ServerHealth → ServerHealth}
    (hp : p'.registry = p.registry.mapWithKey f) (hf : ∀ s h, (f s h).inFlight = h.inFlight) :
    SameInFlight p p' := by
  intro sid
  unfold inFlightOf
  rw [hp, Finmap.lookup_mapWithKey, Option.map_map]
  cases p.registry.lookup sid with
  | none => rfl
  | some h => exact congrArg some (hf sid h)

theorem sameInFlight_snapshotSignals (p : ProxyState) (clock : ServerId → Instant) :
    SameInFlight p (p.snapshotSignals clock).2 :=
  sameInFlight_mapWithKey rfl fun _ _ => ServerHealth.inFlight_snapshot _ _ _

theorem sameInFlight_healthResponse (p : ProxyState) (clock : ServerId → Instant) :
    SameInFlight p (p.healthResponse clock) :=
  sameInFlight_mapWithKey rfl fun _ _ => rfl

theorem sameInFlight_metricsResponse (p : ProxyState) (clock : ServerId → Instant) :
    SameInFlight p (p.metricsResponse clock) :=
  sameInFlight_mapWithKey rfl fun _ _ => ServerHealth.inFlight_errorRate _ _ _ _

theorem sameInFlight_recordBackendHealth (p : ProxyState) (sid : ServerId) (status : ℕ)
    (latency : Duration) (now : Instant) :
    SameInFlight p (p.recordBackendHealth sid status latency now) := by
  refine sameInFlight_mapWithKey rfl fun s h => ?_
  split
  · exact ServerHealth.inFlight_record _ _ _ _ _
  · rfl

theorem sameInFlight_syncScoreboard {p p' : ProxyState} {clock : ServerId → Instant × Instant}
    {now : Instant} (h : p.syncScoreboard clock now = some p') : SameInFlight p p' := by
  obtain ⟨scoreboard, -, rfl⟩ := Option.map_eq_some_iff.mp h
  exact sameInFlight_mapWithKey rfl fun _ _ => ServerHealth.inFlight_prediction _ _ _ _ _

theorem sameInFlight_route (p : ProxyState) (signals : SignalMap) (now : Instant) :
    SameInFlight p (p.route signals now).2 := by
  unfold route
  cases p.algorithm with
  | p2c => exact SameInFlight.refl p
  | roundRobin =>
    dsimp only
    split
    · exact SameInFlight.refl p
    · exact SameInFlight.refl p

/-- An update of one backend changes one counter. -/
theorem inFlightOf_updateHealth (p : ProxyState) (sid s : ServerId)
    (f : ServerHealth → ServerHealth) :
    (p.updateHealth sid f).inFlightOf s =
      (p.registry.lookup s).map fun h => if s = sid then (f h).inFlight else h.inFlight := by
  unfold inFlightOf updateHealth
  rw [Finmap.lookup_mapWithKey, Option.map_map]
  congr 1
  funext h
  show (if s = sid then f h else h).inFlight = _
  split <;> rfl

end ProxyState

/-! ### The invariant -/

/-- Every counter is the number of requests that occupy the backend. -/
def Balanced (st : State) : Prop :=
  ∀ sid c, st.proxy.inFlightOf sid = some c → c = BitVec.ofNat 64 (st.occupied sid)

theorem balanced_init (cfg : Config) (created : ℕ → Instant) (seed : BitVec 64) :
    Balanced (State.init cfg created seed) := by
  intro sid c hc
  obtain ⟨h, hlookup, rfl⟩ := Option.map_eq_some_iff.mp hc
  -- every counter is zero and no request is there
  obtain rfl := ProxyState.eq_new_of_lookup hlookup
  rfl

section Moves

variable {st : State} {proxy : ProxyState}

/-- A request that occupies nothing is added. -/
theorem Balanced.push (h : Balanced st) (hsame : st.proxy.SameInFlight proxy) {phase : Phase}
    (hphase : ∀ sid, phase.occupies sid = false) : Balanced (st.push phase proxy) := by
  intro sid c hc
  rw [State.occupied_push, hphase sid]
  exact h sid c ((hsame sid).symm.trans hc)

/-- A request is dispatched, with the call of `begin`. -/
theorem Balanced.push_begin (h : Balanced st) (hsame : st.proxy.SameInFlight proxy)
    (sid : ServerId) {total : BitVec 64} :
    Balanced (st.push (.dispatched sid)
      { proxy.updateHealth sid ServerHealth.begin with requestsTotal := total }) := by
  intro s c hc
  replace hc : (proxy.updateHealth sid ServerHealth.begin).inFlightOf s = some c := hc
  rw [ProxyState.inFlightOf_updateHealth] at hc
  obtain ⟨health, hlookup, rfl⟩ := Option.map_eq_some_iff.mp hc
  -- before the dispatch the books were balanced
  have hold : health.inFlight = BitVec.ofNat 64 (st.occupied s) := by
    apply h s
    rw [← hsame s, ProxyState.inFlightOf, hlookup, Option.map_some]
  rw [State.occupied_push]
  by_cases hs : s = sid
  · subst hs
    have hocc : (Phase.dispatched s).occupies s = true := by simp [Phase.occupies, Phase.isHeld]
    -- one more request, and `begin` adds one to the same counter
    rw [if_pos rfl, hocc, if_pos rfl, BitVec.ofNat_add, ← hold]
    rfl
  · have hocc : (Phase.dispatched sid).occupies s = false := by
      simp [Phase.occupies, Phase.isHeld, Phase.isAbandoned, Ne.symm hs]
    rw [if_neg hs, hocc, hold]
    rfl

variable {i : ℕ} {old phase : Phase}

/-- A request changes its phase and still occupies what it occupied. -/
theorem Balanced.move (h : Balanced st) (hi : st.requests[i]? = some old)
    (hsame : st.proxy.SameInFlight proxy)
    (hphase : ∀ sid, phase.occupies sid = old.occupies sid) :
    Balanced (st.move i phase proxy) := by
  intro sid c hc
  have hcount := State.occupied_move hi phase proxy sid
  rw [hphase sid] at hcount
  -- neither the counter nor the number of requests has changed
  rw [h sid c ((hsame sid).symm.trans hc), Nat.add_right_cancel hcount]

/-- A request that occupied `sid` stops doing so, with one `decrement`. -/
theorem Balanced.release (h : Balanced st) (hi : st.requests[i]? = some old) (sid : ServerId)
    (hold : ∀ s, old.occupies s = decide (s = sid)) (hphase : ∀ s, phase.occupies s = false)
    (hsame : (st.proxy.updateHealth sid ServerHealth.decrement).SameInFlight proxy) :
    Balanced (st.move i phase proxy) := by
  intro s c hc
  rw [show (st.move i phase proxy).proxy.inFlightOf s =
    (st.proxy.updateHealth sid ServerHealth.decrement).inFlightOf s from hsame s,
    ProxyState.inFlightOf_updateHealth] at hc
  obtain ⟨health, hlookup, rfl⟩ := Option.map_eq_some_iff.mp hc
  have hbefore : health.inFlight = BitVec.ofNat 64 (st.occupied s) := by
    apply h s
    rw [ProxyState.inFlightOf, hlookup, Option.map_some]
  have hcount := State.occupied_move hi phase proxy s
  rw [hold s, hphase s] at hcount
  by_cases hs : s = sid
  · -- the request itself was counted, so the counter is not decremented at zero
    have hsucc : st.occupied s = (st.move i phase proxy).occupied s + 1 := by
      simpa [hs] using hcount.symm
    rw [if_pos hs]
    show health.inFlight - 1 = _
    rw [hbefore, hsucc, BitVec.ofNat_add]
    exact BitVec.add_sub_cancel _ _
  · have hsame' : st.occupied s = (st.move i phase proxy).occupied s := by
      simpa [hs] using hcount.symm
    rw [if_neg hs, hbefore, hsame']

end Moves

/-! ### Every step -/

theorem balanced_arrive {st : State} (h : Balanced st) (req : Request)
    (clock : ServerId → Instant) (now : Instant) : Balanced (st.arrive req clock now) := by
  unfold State.arrive
  split
  · exact h.push (ProxyState.sameInFlight_healthResponse _ _) fun _ => rfl
  split
  · exact h.push (ProxyState.sameInFlight_metricsResponse _ _) fun _ => rfl
  -- neither the snapshot nor the decision touches a counter
  have hsame : st.proxy.SameInFlight
      ((st.proxy.snapshotSignals clock).2.route (st.proxy.snapshotSignals clock).1 now).2 :=
    (ProxyState.sameInFlight_snapshotSignals _ _).trans (ProxyState.sameInFlight_route _ _ _)
  dsimp only
  split
  · exact h.push hsame fun _ => rfl
  · next sid _ =>
    split
    · exact h.push hsame fun _ => rfl
    · exact h.push_begin hsame sid

theorem balanced_build {st : State} (h : Balanced st) {i : ℕ} {sid : ServerId}
    (hi : st.requests[i]? = some (.dispatched sid)) (outcome : BuildOutcome) :
    Balanced (st.build i sid outcome) := by
  have hocc : ∀ s, (Phase.dispatched sid).occupies s = decide (s = sid) := by
    intro s
    simp [Phase.occupies, Phase.isHeld, Phase.isAbandoned, eq_comm]
  cases outcome with
  | badTarget => exact h.release hi sid hocc (fun _ => rfl) (ProxyState.SameInFlight.refl _)
  | buildFailed => exact h.release hi sid hocc (fun _ => rfl) (ProxyState.SameInFlight.refl _)
  | built => exact h.move hi (ProxyState.SameInFlight.refl _) fun _ => rfl

theorem balanced_respond {st : State} (h : Balanced st) {i : ℕ} {sid : ServerId}
    (hi : st.requests[i]? = some (.awaiting sid)) (upstream : Upstream) (latency : Duration)
    (now : Instant) : Balanced (st.respond i sid upstream latency now) := by
  cases upstream with
  -- the handler hands its request over to the body
  | ok status =>
    refine h.move hi (ProxyState.sameInFlight_recordBackendHealth _ _ _ _ _) ?_
    intro s
    simp [Phase.occupies, Phase.isHeld, TrackedBody.new, Phase.isAbandoned]
  | error =>
    refine h.release hi sid ?_ (fun _ => rfl)
      (ProxyState.sameInFlight_recordBackendHealth _ _ _ _ _)
    intro s
    simp [Phase.occupies, Phase.isHeld, Phase.isAbandoned, eq_comm]

/-- A body that has ended occupies nothing. -/
theorem occupies_streaming (sid s : ServerId) (status : ℕ) (body : TrackedBody) :
    (Phase.streaming sid status body).occupies s = (decide (s = sid) && !body.done) := by
  cases hb : body.done <;>
    simp [Phase.occupies, Phase.isHeld, Phase.isAbandoned, hb, eq_comm]

/-- Finishing a body releases the backend if nothing has released it before, whatever the
request becomes, as long as it occupies nothing then. -/
theorem balanced_finish {st : State} (h : Balanced st) {i : ℕ} {sid : ServerId} {status : ℕ}
    {body : TrackedBody} (hi : st.requests[i]? = some (.streaming sid status body))
    {phase : Phase} (hphase : ∀ s, phase.occupies s = false) :
    Balanced (st.move i phase (State.onDone st.proxy sid body.finish.2)) := by
  rw [body.finish_eq.2]
  cases hdone : body.done with
  | true =>
    -- released before, so the request did not count any more
    refine h.move hi (ProxyState.SameInFlight.refl _) fun s => ?_
    rw [hphase s, occupies_streaming, hdone, Bool.not_true, Bool.and_false]
  | false =>
    refine h.release hi sid (fun s => ?_) hphase (ProxyState.SameInFlight.refl _)
    rw [occupies_streaming, hdone, Bool.not_false, Bool.and_true]

theorem balanced_pollBody {st : State} (h : Balanced st) {i : ℕ} {sid : ServerId} {status : ℕ}
    {body : TrackedBody} (hi : st.requests[i]? = some (.streaming sid status body))
    (poll : PollFrame) :
    Balanced (st.move i (.streaming sid status (body.pollFrame poll).1)
      (State.onDone st.proxy sid (body.pollFrame poll).2)) := by
  have hfinished : ∀ s, (Phase.streaming sid status body.finish.1).occupies s = false := by
    intro s
    rw [occupies_streaming, body.finish_eq.1, Bool.not_true, Bool.and_false]
  cases poll with
  | pending => exact h.move hi (ProxyState.SameInFlight.refl _) fun _ => rfl
  | frame => exact h.move hi (ProxyState.SameInFlight.refl _) fun _ => rfl
  | error => exact balanced_finish h hi hfinished
  | done => exact balanced_finish h hi hfinished

/-- **One step of the proxy keeps the books balanced.** -/
theorem balanced_step {st st' : State} {e : Event} (h : Balanced st)
    (he : st.step e = some st') : Balanced st' := by
  cases e with
  | arrive req clock now =>
    obtain rfl := Option.some.inj he
    exact balanced_arrive h req clock now
  | build i outcome =>
    obtain ⟨sid, hi, rfl⟩ := State.step_build he
    exact balanced_build h hi outcome
  | respond i upstream latency now =>
    obtain ⟨sid, hi, rfl⟩ := State.step_respond he
    exact balanced_respond h hi upstream latency now
  | clientGone i =>
    -- nobody calls `decrement`, and the request goes on occupying the backend
    obtain ⟨sid, hi, rfl⟩ := State.step_clientGone he
    refine h.move hi (ProxyState.SameInFlight.refl _) fun s => ?_
    simp [Phase.occupies, Phase.isHeld, Phase.isAbandoned]
  | pollBody i poll =>
    obtain ⟨sid, status, body, hi, rfl⟩ := State.step_pollBody he
    exact balanced_pollBody h hi poll
  | dropBody i =>
    obtain ⟨sid, status, body, hi, rfl⟩ := State.step_dropBody he
    exact balanced_finish h hi fun _ => rfl
  | syncScoreboard clock now =>
    -- predictions read the counters and leave them alone
    obtain ⟨proxy, hproxy, rfl⟩ := State.step_syncScoreboard he
    intro sid c hc
    exact h sid c ((ProxyState.sameInFlight_syncScoreboard hproxy sid).symm.trans hc)

/-- **In every run the counters are balanced**, handlers that are dropped included. -/
theorem balanced_run {cfg : Config} {created : ℕ → Instant} {seed : BitVec 64}
    {events : List Event} {st : State} (hrun : (State.init cfg created seed).run events = some st) :
    Balanced st :=
  State.run_induction hrun (balanced_init cfg created seed) fun _ _ _ _ he h =>
    balanced_step h he

/-! ### Runs in which no handler is dropped -/

/-- No request was abandoned. -/
def NoneAbandoned (st : State) : Prop :=
  ∀ phase ∈ st.requests, ∀ sid, phase.isAbandoned sid = false

theorem NoneAbandoned.push {st : State} (h : NoneAbandoned st) {phase : Phase}
    (hphase : ∀ sid, phase.isAbandoned sid = false) (proxy : ProxyState) :
    NoneAbandoned (st.push phase proxy) := by
  intro x hx
  rcases List.mem_append.mp hx with hx | hx
  · exact h x hx
  · rw [List.mem_singleton.mp hx]
    exact hphase

theorem NoneAbandoned.move {st : State} (h : NoneAbandoned st) {phase : Phase}
    (hphase : ∀ sid, phase.isAbandoned sid = false) (i : ℕ) (proxy : ProxyState) :
    NoneAbandoned (st.move i phase proxy) := by
  intro x hx
  rcases List.mem_or_eq_of_mem_set hx with hx | rfl
  · exact h x hx
  · exact hphase

/-- Only the event of a vanished client abandons a request. -/
theorem noneAbandoned_step {st st' : State} {e : Event} (h : NoneAbandoned st)
    (he : st.step e = some st') (hgone : ∀ i, e ≠ .clientGone i) : NoneAbandoned st' := by
  cases e with
  | arrive req clock now =>
    obtain rfl := Option.some.inj he
    unfold State.arrive
    split
    · exact h.push (fun _ => rfl) _
    split
    · exact h.push (fun _ => rfl) _
    dsimp only
    split
    · exact h.push (fun _ => rfl) _
    · split <;> exact h.push (fun _ => rfl) _
  | build i outcome =>
    obtain ⟨sid, -, rfl⟩ := State.step_build he
    cases outcome <;> exact h.move (fun _ => rfl) _ _
  | respond i upstream latency now =>
    obtain ⟨sid, -, rfl⟩ := State.step_respond he
    cases upstream <;> exact h.move (fun _ => rfl) _ _
  -- the one event that abandons a request
  | clientGone i => exact absurd rfl (hgone i)
  | pollBody i poll =>
    obtain ⟨sid, status, body, -, rfl⟩ := State.step_pollBody he
    exact h.move (fun _ => rfl) _ _
  | dropBody i =>
    obtain ⟨sid, status, body, -, rfl⟩ := State.step_dropBody he
    exact h.move (fun _ => rfl) _ _
  | syncScoreboard clock now =>
    obtain ⟨proxy, -, rfl⟩ := State.step_syncScoreboard he
    exact h

theorem NoneAbandoned.occupied_eq {st : State} (h : NoneAbandoned st) (sid : ServerId) :
    st.occupied sid = st.held sid :=
  List.countP_congr fun phase hphase => by
    rw [Phase.occupies_of_not_abandoned (h phase hphase sid)]

/-- **In-flight accounting.** In every run in which no handler is dropped while it awaits
the upstream response, and at every moment of it, the counter of each backend is the number
of requests dispatched to it whose handler is still running or whose response body is still
alive. As a number it is exact as long as there are fewer than `2^64` of them, so it never
wraps below zero, and it is zero when there are none. -/
theorem inFlight_eq_held {cfg : Config} {created : ℕ → Instant} {seed : BitVec 64}
    {events : List Event} {st : State} (hrun : (State.init cfg created seed).run events = some st)
    (hstay : ∀ e ∈ events, ∀ i, e ≠ .clientGone i) (sid : ServerId) (health : ServerHealth)
    (hhealth : st.proxy.registry.lookup sid = some health) :
    health.inFlight = BitVec.ofNat 64 (st.held sid) ∧
      (st.held sid < 2 ^ 64 → health.inFlight.toNat = st.held sid) ∧
      (st.held sid = 0 → health.inFlight = 0) := by
  have hbal : Balanced st := balanced_run hrun
  have hnone : NoneAbandoned st := by
    refine State.run_induction hrun (fun phase hphase => absurd hphase List.not_mem_nil) ?_
    intro s s' e he hstep h
    exact noneAbandoned_step h hstep (hstay e he)
  -- without abandoned requests the occupied ones are the held ones
  have hcounter : health.inFlight = BitVec.ofNat 64 (st.held sid) := by
    rw [← hnone.occupied_eq sid]
    apply hbal sid
    rw [ProxyState.inFlightOf, hhealth, Option.map_some]
  refine ⟨hcounter, ?_, ?_⟩
  · intro hlt
    rw [hcounter, BitVec.toNat_ofNat, Nat.mod_eq_of_lt hlt]
  · intro hzero
    rw [hcounter, hzero]
    rfl

/-! ### One backend, one client that goes away -/

/-- A proxy in front of one backend. -/
def oneBackend : Config where
  backendPool := ["http://backend:3001"]
  latencySlo := 10 ^ 9
  fiveXxWindow := 10 * 10 ^ 9
  safety := SafetyThresholds.default
  algorithm := .roundRobin

/-- A request for a page. -/
def ping : Event := .arrive ⟨"GET", "/ping"⟩ (fun _ => 0) 0

theorem route_roundRobin {p : ProxyState} (halg : p.algorithm = .roundRobin)
    (hn : p.backends.length ≠ 0) (signals : SignalMap) (now : Instant) :
    p.route signals now = (some ⟨p.rrCursor.toNat % p.backends.length⟩,
      { p with rrCursor := p.rrCursor + 1 }) := by
  unfold ProxyState.route
  rw [halg]
  exact if_neg hn

/-- The request is dispatched to the only backend. -/
theorem arrive_ping : ∃ (proxy : ProxyState) (health : ServerHealth),
    (State.init oneBackend (fun i => i) 1).arrive ⟨"GET", "/ping"⟩ (fun _ => 0) 0 =
      (State.init oneBackend (fun i => i) 1).push (.dispatched ⟨0⟩) proxy ∧
      proxy.registry.lookup ⟨0⟩ = some health := by
  set st₀ := State.init oneBackend (fun i => i) 1 with hst₀
  have hnew : st₀.proxy.registry.lookup ⟨0⟩ = some ServerHealth.new := by
    apply ProxyState.lookup_registry_new
    simp [oneBackend, backendIds]
  have hregistry : (st₀.proxy.snapshotSignals fun _ => 0).2.registry.lookup ⟨0⟩ =
      some (ServerHealth.new.snapshot st₀.proxy.fiveXxWindow 0).2 := by
    show (Finmap.mapWithKey _ _).lookup _ = _
    rw [Finmap.lookup_mapWithKey, hnew]
    rfl
  -- the cursor starts at zero
  have hroute := route_roundRobin (p := (st₀.proxy.snapshotSignals fun _ => 0).2) rfl
    (show 1 ≠ 0 by decide) (st₀.proxy.snapshotSignals fun _ => 0).1 0
  have hsid : (⟨(st₀.proxy.snapshotSignals fun _ => 0).2.rrCursor.toNat %
      (st₀.proxy.snapshotSignals fun _ => 0).2.backends.length⟩ : ServerId) = ⟨0⟩ := rfl
  rw [hsid] at hroute
  refine ⟨_, ServerHealth.begin (ServerHealth.new.snapshot st₀.proxy.fiveXxWindow 0).2,
    State.arrive_of_route (by simp) (by simp) hroute hregistry, ?_⟩
  show (Finmap.mapWithKey _ _).lookup _ = _
  rw [Finmap.lookup_mapWithKey, hregistry]
  rfl

/-- The proxy sends the request and awaits the answer. -/
theorem run_ping : ∃ st health,
    (State.init oneBackend (fun i => i) 1).run [ping, .build 0 .built] = some st ∧
      st.requests = [.awaiting ⟨0⟩] ∧ st.proxy.registry.lookup ⟨0⟩ = some health := by
  obtain ⟨proxy, health, harrive, hlookup⟩ := arrive_ping
  have hstep : (State.init oneBackend (fun i => i) 1).step ping =
      some ((State.init oneBackend (fun i => i) 1).push (.dispatched ⟨0⟩) proxy) :=
    congrArg some harrive
  refine ⟨⟨proxy, [.awaiting ⟨0⟩]⟩, health, ?_, rfl, hlookup⟩
  rw [State.run_cons, hstep, Option.bind_some]
  rfl

/-- The accounting for a request that is still awaited. -/
theorem inFlight_eq_held_ping : ∃ st health,
    (State.init oneBackend (fun i => i) 1).run [ping, .build 0 .built] = some st ∧
      st.proxy.registry.lookup ⟨0⟩ = some health ∧
      health.inFlight = BitVec.ofNat 64 (st.held ⟨0⟩) ∧
      (st.held ⟨0⟩ < 2 ^ 64 → health.inFlight.toNat = st.held ⟨0⟩) ∧
      (st.held ⟨0⟩ = 0 → health.inFlight = 0) := by
  obtain ⟨st, health, hrun, -, hhealth⟩ := run_ping
  refine ⟨st, health, hrun, hhealth, inFlight_eq_held hrun ?_ ⟨0⟩ health hhealth⟩
  intro e he i
  simp only [List.mem_cons, List.not_mem_nil, or_false] at he
  rcases he with rfl | rfl
  · simp [ping]
  · simp

/-- **The counter leaks.** The client goes away while the handler awaits the backend. No
request to the backend is left, and its counter stays at one. -/
theorem inFlight_leaks : ∃ st health,
    (State.init oneBackend (fun i => i) 1).run [ping, .build 0 .built, .clientGone 0] = some st ∧
      st.proxy.registry.lookup ⟨0⟩ = some health ∧
      st.held ⟨0⟩ = 0 ∧ health.inFlight = 1 := by
  obtain ⟨st, health, hrun, hreqs, hhealth⟩ := run_ping
  have hgone : st.step (.clientGone 0) = some (st.move 0 (.abandoned ⟨0⟩) st.proxy) := by
    simp [State.step, hreqs]
  have hrun' : (State.init oneBackend (fun i => i) 1).run
      ([ping, .build 0 .built] ++ [.clientGone 0]) =
        some (st.move 0 (.abandoned ⟨0⟩) st.proxy) := by
    unfold State.run at hrun ⊢
    rw [List.foldlM_append, hrun]
    show (st.step _).bind some = _
    rw [hgone, Option.bind_some]
  refine ⟨_, health, hrun', hhealth, ?_, ?_⟩
  · simp [State.held, State.move, hreqs, Phase.isHeld]
  · -- the books are balanced with the abandoned request in them
    have hbal := balanced_run hrun' ⟨0⟩ health.inFlight (by
      show (st.proxy.registry.lookup ⟨0⟩).map _ = _
      rw [hhealth, Option.map_some])
    rw [hbal]
    simp [State.occupied, State.move, hreqs, Phase.occupies, Phase.isAbandoned]

end ScalableBooking.LbProxy
