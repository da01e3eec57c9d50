import ScalableBooking.LbProxy.Health
import ScalableBooking.Lib.Runs
import ScalableBooking.RouterCore.Router
import ScalableBooking.RouterCore.SingleDomain

/-!
# The proxy

`lb-proxy/src/proxy.rs`: the shared state, the wrapper around a response body, and the
request handler.

`handle` is cut at the points where something outside the proxy decides how it goes on, and
each piece is one step of a request: routing up to `begin` (`arrive`), building the outbound
request (`build`), and the answer of the upstream client (`respond`). After that the response
body is polled and dropped by the server connection (`pollBody`, `dropBody`). While the
handler awaits the upstream client it can also be dropped itself (`clientGone`), and then
none of its code runs any more. The slow loop synchronises the scoreboard in between
(`syncScoreboard`).

Any number of requests run at a time, and `run` interleaves their steps in any order. What
the `http` and `hyper` crates answer (whether a target parses, whether the outbound request
can be built, what the upstream sends, what a body yields) is part of the event. The headers
of the outbound request do not touch the state and are left out, and of the two probe
responses there is what they do to the windows that they report.
-/

namespace ScalableBooking.LbProxy

open RouterCore

/-! ### Configuration and shared state -/

/-- `RoutingAlgorithm`. -/
inductive RoutingAlgorithm where
  | p2c
  | roundRobin
deriving DecidableEq, Repr

/-- The part of `Config` the running proxy reads. -/
structure Config where
  backendPool : List String
  latencySlo : Duration
  fiveXxWindow : Duration
  safety : SafetyThresholds
  algorithm : RoutingAlgorithm

/-- `ProxyState`. The `Arc`s of the registry are its entries. -/
structure ProxyState where
  router : Router
  backends : List String
  registry : Finmap fun _ : ServerId => ServerHealth
  latencySlo : Duration
  fiveXxWindow : Duration
  requestsTotal : BitVec 64
  algorithm : RoutingAlgorithm
  rrCursor : BitVec 64

namespace ProxyState

/-- `ProxyState::new`, with the clock readings of the fresh scores and the seed of the
router's generator. -/
noncomputable def new (cfg : Config) (created : ℕ → Instant) (seed : BitVec 64) :
    ProxyState where
  router := Router.new (poolBoard (backendIds cfg.backendPool.length) created)
    (backendIds cfg.backendPool.length) cfg.safety seed
  backends := cfg.backendPool
  registry := Finmap.insertAll id (fun _ => ServerHealth.new)
    (backendIds cfg.backendPool.length) ∅
  latencySlo := cfg.latencySlo
  fiveXxWindow := cfg.fiveXxWindow
  requestsTotal := 0
  algorithm := cfg.algorithm
  rrCursor := 0

/-- A fresh registry holds fresh entries. -/
theorem eq_new_of_lookup {cfg : Config} {created : ℕ → Instant} {seed : BitVec 64}
    {sid : ServerId} {h : ServerHealth}
    (hsid : (new cfg created seed).registry.lookup sid = some h) : h = ServerHealth.new := by
  obtain ⟨_, -, -, heq⟩ | h₀ := Finmap.exists_of_lookup_insertAll hsid
  · exact heq.symm
  · rw [Finmap.lookup_empty] at h₀
    cases h₀

/-- And it holds one for every backend. -/
theorem lookup_registry_new {cfg : Config} {created : ℕ → Instant} {seed : BitVec 64}
    {sid : ServerId} (hsid : sid ∈ backendIds cfg.backendPool.length) :
    (new cfg created seed).registry.lookup sid = some ServerHealth.new := by
  have hmem : sid ∈ (new cfg created seed).registry := by
    refine Finmap.mem_insertAll.mpr (Or.inl ?_)
    rwa [List.map_id]
  obtain ⟨h, hlookup⟩ := Finmap.mem_iff.mp hmem
  rw [hlookup, eq_new_of_lookup hlookup]

/-- Apply `f` to the health of one backend. -/
def updateHealth (p : ProxyState) (sid : ServerId) (f : ServerHealth → ServerHealth) :
    ProxyState :=
  { p with registry := p.registry.mapWithKey fun s h => if s = sid then f h else h }

/-- `snapshot_signals`. Each backend's window is pruned at its own reading of the clock. -/
def snapshotSignals (p : ProxyState) (clock : ServerId → Instant) : SignalMap × ProxyState :=
  (p.registry.mapWithKey fun s h => (h.snapshot p.fiveXxWindow (clock s)).1,
    { p with registry :=
        p.registry.mapWithKey fun s h => (h.snapshot p.fiveXxWindow (clock s)).2 })

/-- `record_backend_health`. -/
def recordBackendHealth (p : ProxyState) (sid : ServerId) (status : ℕ) (latency : Duration)
    (now : Instant) : ProxyState :=
  p.updateHealth sid fun h => h.record status latency p.fiveXxWindow now

/-- What `health_response` leaves behind: it counts the errors of each backend twice, at one
reading of the clock here. -/
def healthResponse (p : ProxyState) (clock : ServerId → Instant) : ProxyState :=
  { p with registry := p.registry.mapWithKey fun s h =>
      ((h.snapshot p.fiveXxWindow (clock s)).2.fiveXxCount p.fiveXxWindow (clock s)).2 }

/-- What `metrics_response` leaves behind, which also asks for the rate. -/
noncomputable def metricsResponse (p : ProxyState) (clock : ServerId → Instant) : ProxyState :=
  { p with registry := p.registry.mapWithKey fun s h =>
      (((h.snapshot p.fiveXxWindow (clock s)).2.fiveXxCount p.fiveXxWindow (clock s)).2.errorRate
        p.fiveXxWindow (clock s) (clock s)).2 }

/-- `sync_scoreboard`. There is no result when the update of the scoreboard panics. -/
noncomputable def syncScoreboard (p : ProxyState) (clock : ServerId → Instant × Instant)
    (now : Instant) : Option ProxyState :=
  let predict := fun (s : ServerId) (h : ServerHealth) =>
    h.prediction p.latencySlo p.fiveXxWindow (clock s).1 (clock s).2
  let predictions : Predictions := p.registry.mapWithKey fun s h => (predict s h).1
  -- the proxy knows no cluster load
  (p.router.scoreboard.updateScores predictions 0 now).map fun scoreboard =>
    { p with
      router := { p.router with scoreboard := scoreboard }
      registry := p.registry.mapWithKey fun s h => (predict s h).2 }

/-- The routing decision of `handle`. -/
noncomputable def route (p : ProxyState) (signals : SignalMap) (now : Instant) :
    Option ServerId × ProxyState :=
  match p.algorithm with
  | .p2c =>
    let (choice, router) := p.router.chooseServer signals now
    (choice, { p with router := router })
  | .roundRobin =>
    if p.backends.length = 0 then (none, p)
    else (some ⟨p.rrCursor.toNat % p.backends.length⟩, { p with rrCursor := p.rrCursor + 1 })

end ProxyState

/-! ### Tracked bodies -/

/-- What a poll of a body yields: `Poll::Pending`, a data or trailers frame, an error, or
the end. -/
inductive PollFrame where
  | pending
  | frame
  | error
  | done
deriving DecidableEq, Repr

/-- `TrackedBody`: `onDone` says whether the closure is still there. -/
structure TrackedBody where
  done : Bool
  onDone : Bool
  onDone_eq : onDone = !done
deriving DecidableEq

namespace TrackedBody

/-- `TrackedBody::new`. -/
def new : TrackedBody := ⟨false, true, rfl⟩

/-- `finish`, with whether the closure has been called. -/
def finish (b : TrackedBody) : TrackedBody × Bool :=
  if b.done then (b, false) else (⟨true, false, rfl⟩, b.onDone)

/-- `poll_frame`, given what the inner body yields. -/
def pollFrame (b : TrackedBody) (poll : PollFrame) : TrackedBody × Bool :=
  match poll with
  -- the end and an error release the backend, whatever is polled afterwards
  | .done | .error => b.finish
  | .pending | .frame => (b, false)

/-- The closure is called by the first `finish` and by no other. -/
theorem finish_eq (b : TrackedBody) : b.finish.1.done = true ∧ b.finish.2 = !b.done := by
  unfold finish
  have h := b.onDone_eq
  cases hd : b.done with
  | true => simp [hd]
  | false => simp [h, hd]

end TrackedBody

/-! ### Requests in progress -/

/-- What `handle` looks at in a request before it routes it. -/
structure Request where
  method : String
  path : String
deriving DecidableEq, Repr

/-- A response the proxy makes itself. -/
inductive Reply where
  | health
  | metrics
  | text (status : ℕ) (message : String)
deriving DecidableEq, Repr

/-- Where a request stands. -/
inductive Phase where
  /-- `begin` has been called, the outbound request is not built yet. -/
  | dispatched (sid : ServerId)
  /-- The handler awaits the upstream client. -/
  | awaiting (sid : ServerId)
  /-- The handler has returned, the response body is not dropped yet. -/
  | streaming (sid : ServerId) (status : ℕ) (body : TrackedBody)
  /-- The response body has been dropped. -/
  | closed (status : ℕ)
  /-- The handler has answered by itself. -/
  | answered (reply : Reply)
  /-- The handler was dropped while it awaited the upstream client. -/
  | abandoned (sid : ServerId)
deriving DecidableEq

/-- The proxy together with all requests it has accepted. A request is named by its
position. -/
structure State where
  proxy : ProxyState
  requests : List Phase

/-- How building the outbound request ends. -/
inductive BuildOutcome where
  | badTarget
  | buildFailed
  | built
deriving DecidableEq, Repr

/-- What the upstream client answers. -/
inductive Upstream where
  | ok (status : ℕ)
  | error
deriving DecidableEq, Repr

/-- A step of the proxy, with everything the outside contributes to it. -/
inductive Event where
  | arrive (req : Request) (clock : ServerId → Instant) (now : Instant)
  | build (i : ℕ) (outcome : BuildOutcome)
  | respond (i : ℕ) (upstream : Upstream) (latency : Duration) (now : Instant)
  | clientGone (i : ℕ)
  | pollBody (i : ℕ) (poll : PollFrame)
  | dropBody (i : ℕ)
  | syncScoreboard (clock : ServerId → Instant × Instant) (now : Instant)

namespace State

/-- The running proxy before its first request. -/
noncomputable def init (cfg : Config) (created : ℕ → Instant) (seed : BitVec 64) : State where
  proxy := ProxyState.new cfg created seed
  requests := []

/-- Request `i` moves to another phase, and the proxy to another state. -/
def move (st : State) (i : ℕ) (phase : Phase) (proxy : ProxyState) : State where
  proxy := proxy
  requests := st.requests.set i phase

/-- A new request. -/
def push (st : State) (phase : Phase) (proxy : ProxyState) : State where
  proxy := proxy
  requests := st.requests ++ [phase]

/-- The first piece of `handle`: the probes, the routing decision, `begin`. -/
noncomputable def arrive (st : State) (req : Request) (clock : ServerId → Instant)
    (now : Instant) : State :=
  if req.method = "GET" ∧ req.path = "/health" then
    st.push (.answered .health) (st.proxy.healthResponse clock)
  else if req.method = "GET" ∧ req.path = "/metrics" then
    st.push (.answered .metrics) (st.proxy.metricsResponse clock)
  else
    -- the signals are taken for either algorithm
    let (signals, proxy) := st.proxy.snapshotSignals clock
    let (choice, proxy) := proxy.route signals now
    match choice with
    | none => st.push (.answered (.text 503 "no backends configured")) proxy
    | some sid =>
      match proxy.registry.lookup sid with
      | none => st.push (.answered (.text 503 "backend disappeared")) proxy
      | some _ =>
        let proxy := proxy.updateHealth sid ServerHealth.begin
        st.push (.dispatched sid) { proxy with requestsTotal := proxy.requestsTotal + 1 }

/-- The second piece: the outbound request. Both failures release the backend. -/
def build (st : State) (i : ℕ) (sid : ServerId) : BuildOutcome → State
  | .badTarget => st.move i (.answered (.text 502 "invalid upstream target"))
      (st.proxy.updateHealth sid ServerHealth.decrement)
  | .buildFailed => st.move i (.answered (.text 502 "failed to build request"))
      (st.proxy.updateHealth sid ServerHealth.decrement)
  | .built => st.move i (.awaiting sid) st.proxy

/-- The two arms after the await. A failed call is recorded as a `502`. -/
def respond (st : State) (i : ℕ) (sid : ServerId) (upstream : Upstream) (latency : Duration)
    (now : Instant) : State :=
  match upstream with
  -- the counter goes down with the body, not with the answer
  | .ok status => st.move i (.streaming sid status TrackedBody.new)
      (st.proxy.recordBackendHealth sid status latency now)
  | .error => st.move i (.answered (.text 502 "upstream request failed"))
      ((st.proxy.updateHealth sid ServerHealth.decrement).recordBackendHealth sid 502 latency now)

/-- What the closure of a tracked body does when it is called. -/
def onDone (p : ProxyState) (sid : ServerId) (called : Bool) : ProxyState :=
  if called then p.updateHealth sid ServerHealth.decrement else p

/-- One step, where it is enabled. -/
noncomputable def step (st : State) : Event → Option State
  | .arrive req clock now => some (st.arrive req clock now)
  | .build i outcome =>
    match st.requests[i]? with
    | some (.dispatched sid) => some (st.build i sid outcome)
    | _ => none
  | .respond i upstream latency now =>
    match st.requests[i]? with
    | some (.awaiting sid) => some (st.respond i sid upstream latency now)
    | _ => none
  -- the future is dropped at its await: nothing else changes
  | .clientGone i =>
    match st.requests[i]? with
    | some (.awaiting sid) => some (st.move i (.abandoned sid) st.proxy)
    | _ => none
  | .pollBody i poll =>
    match st.requests[i]? with
    | some (.streaming sid status body) =>
      let (body, called) := body.pollFrame poll
      some (st.move i (.streaming sid status body) (onDone st.proxy sid called))
    | _ => none
  | .dropBody i =>
    match st.requests[i]? with
    | some (.streaming sid status body) =>
      -- `Drop` finishes a body that has not finished by itself
      some (st.move i (.closed status) (onDone st.proxy sid body.finish.2))
    | _ => none
  | .syncScoreboard clock now =>
    (st.proxy.syncScoreboard clock now).map fun proxy => { st with proxy := proxy }

/-! ### What a step does -/

section Steps

variable {st st' : State} {i : ℕ}

/-- A request that is no probe and finds its backend in the registry is dispatched. -/
theorem arrive_of_route {req : Request} {clock : ServerId → Instant} {now : Instant}
    {sid : ServerId} {proxy : ProxyState} {health : ServerHealth}
    (hhealth : ¬(req.method = "GET" ∧ req.path = "/health"))
    (hmetrics : ¬(req.method = "GET" ∧ req.path = "/metrics"))
    (hroute : (st.proxy.snapshotSignals clock).2.route (st.proxy.snapshotSignals clock).1 now =
      (some sid, proxy))
    (hlookup : proxy.registry.lookup sid = some health) :
    st.arrive req clock now = st.push (.dispatched sid)
      { proxy.updateHealth sid ServerHealth.begin with
        requestsTotal := proxy.requestsTotal + 1 } := by
  unfold arrive
  rw [if_neg hhealth, if_neg hmetrics]
  dsimp only
  rw [hroute]
  dsimp only
  rw [hlookup]
  rfl

theorem step_build {outcome : BuildOutcome} (h : st.step (.build i outcome) = some st') :
    ∃ sid, st.requests[i]? = some (.dispatched sid) ∧ st' = st.build i sid outcome := by
  simp only [step] at h
  split at h
  · next sid hi => exact ⟨sid, hi, (Option.some.inj h).symm⟩
  · cases h

theorem step_respond {upstream : Upstream} {latency : Duration} {now : Instant}
    (h : st.step (.respond i upstream latency now) = some st') :
    ∃ sid, st.requests[i]? = some (.awaiting sid) ∧
      st' = st.respond i sid upstream latency now := by
  simp only [step] at h
  split at h
  · next sid hi => exact ⟨sid, hi, (Option.some.inj h).symm⟩
  · cases h

theorem step_clientGone (h : st.step (.clientGone i) = some st') :
    ∃ sid, st.requests[i]? = some (.awaiting sid) ∧
      st' = st.move i (.abandoned sid) st.proxy := by
  simp only [step] at h
  split at h
  · next sid hi => exact ⟨sid, hi, (Option.some.inj h).symm⟩
  · cases h

theorem step_pollBody {poll : PollFrame} (h : st.step (.pollBody i poll) = some st') :
    ∃ sid status body, st.requests[i]? = some (.streaming sid status body) ∧
      st' = st.move i (.streaming sid status (body.pollFrame poll).1)
        (onDone st.proxy sid (body.pollFrame poll).2) := by
  simp only [step] at h
  split at h
  · next sid status body hi => exact ⟨sid, status, body, hi, (Option.some.inj h).symm⟩
  · cases h

theorem step_dropBody (h : st.step (.dropBody i) = some st') :
    ∃ sid status body, st.requests[i]? = some (.streaming sid status body) ∧
      st' = st.move i (.closed status) (onDone st.proxy sid body.finish.2) := by
  simp only [step] at h
  split at h
  · next sid status body hi => exact ⟨sid, status, body, hi, (Option.some.inj h).symm⟩
  · cases h

theorem step_syncScoreboard {clock : ServerId → Instant × Instant} {now : Instant}
    (h : st.step (.syncScoreboard clock now) = some st') :
    ∃ proxy, st.proxy.syncScoreboard clock now = some proxy ∧
      st' = { st with proxy := proxy } := by
  obtain ⟨proxy, hproxy, hst⟩ := Option.map_eq_some_iff.mp h
  exact ⟨proxy, hproxy, hst.symm⟩

end Steps

/-! ### Runs -/

/-- A run: the events in the order in which they happen. -/
noncomputable def run (st : State) (events : List Event) : Option State :=
  events.foldlM step st

theorem run_cons (st : State) (e : Event) (events : List Event) :
    st.run (e :: events) = (st.step e).bind fun st' => st'.run events := rfl

/-- **The run rule of the proxy.** What holds at the start and is kept by every step of the
run holds at its end. -/
theorem run_induction {I : State → Prop} {st st' : State} {events : List Event}
    (hrun : st.run events = some st') (h₀ : I st)
    (hstep : ∀ s s', ∀ e ∈ events, s.step e = some s' → I s → I s') : I st' :=
  Runs.foldlM_induction hrun h₀ hstep

end State

end ScalableBooking.LbProxy
