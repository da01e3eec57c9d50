import ScalableBooking.LbProxy.Config
import ScalableBooking.RouterCore.Panics

/-!
# The health loop

`ProxyState::new` spawns a task that synchronises the scoreboard again and again, `HEALTH_POLL_MS`
apart. If that task panics nobody notices: requests are answered as before, by a scoreboard that
learns nothing more.

Here the whole of it runs with checks, next to the requests, which record the health that is read:
the start of the proxy, tokio's interval, and every synchronisation, with the divisions and clamps
of `sync_scoreboard`, `error_rate` and `update_scores`. None of these indexes a list. The one index
that depends on the id of a backend is that of `backend_url`, in the handler of a request.

No health that can be recorded makes a synchronisation panic (`syncScoreboardChecked_eq`), and no
value of a setting does, with one exception. A period of zero is accepted by `from_env`, and
`time::interval` panics on it (`healthLoop_panicFree_iff`). A lock is poisoned by a panic under it
only, so the first panic of a run is none of the `unwrap`s of a lock.
-/

namespace ScalableBooking.LbProxy

open RouterCore MapLoop

/-! ### A synchronisation, with its checks -/

namespace ServerHealth

/-- `error_rate`. -/
noncomputable def errorRateChecked (h : ServerHealth) (window : Duration) (now now' : Instant) :
    Except Panic (ℝ × ServerHealth) :=
  let all := prune h.allRequests now window
  let h := { h with allRequests := all }
  if all.length = 0 then pure (0, h)
  else do
    let (count, h) := h.fiveXxCount window now'
    let rate ← divChecked count all.length
    return (rate, h)

/-- The body of the loop in `sync_scoreboard`. -/
noncomputable def predictionChecked (h : ServerHealth) (latencySlo window : Duration)
    (now now' : Instant) : Except Panic (ServerPrediction × ServerHealth) :=
  if h.totalRequests = 0 then
    pure ({ riskMean := 0, riskVariance := 0, confidence := 0, errorRate := 0 }, h)
  else do
    let emaNs : ℝ := h.latencyEmaNs.toNat
    let denom := max (latencySlo + emaNs) 1
    let sloShare ← divChecked latencySlo denom
    let (errorRate, h) ← h.errorRateChecked window now now'
    let ramp ← divChecked h.totalRequests.toNat 10.0
    let riskMean ← clampChecked (1 - sloShare) 0 1
    return ({ riskMean := riskMean, riskVariance := 0, confidence := min ramp 1,
              errorRate := errorRate }, h)

theorem errorRateChecked_eq (h : ServerHealth) (window : Duration) (now now' : Instant) :
    h.errorRateChecked window now now' = .ok (h.errorRate window now now') := by
  unfold errorRateChecked errorRate
  dsimp only
  split
  · rfl
  · next hne =>
    -- a window without requests has been answered before
    rw [divChecked_of_ne (Nat.cast_ne_zero.mpr hne)]
    rfl

theorem predictionChecked_eq (h : ServerHealth) (latencySlo window : Duration)
    (now now' : Instant) :
    h.predictionChecked latencySlo window now now' =
      .ok (h.prediction latencySlo window now now') := by
  unfold predictionChecked prediction
  split
  · rfl
  · -- the quotient of the risk has a divisor of at least one
    have hdenom : max ((latencySlo : ℝ) + h.latencyEmaNs.toNat) 1 ≠ 0 :=
      (zero_lt_one.trans_le (le_max_right _ _)).ne'
    have hten : (10.0 : ℝ) ≠ 0 := by norm_num
    dsimp only
    rw [divChecked_of_ne hdenom, errorRateChecked_eq]
    show (divChecked _ 10.0 >>= _) = _
    rw [divChecked_of_ne hten]
    show (clampChecked _ 0 1 >>= _) = _
    rw [clampChecked_zero_one]
    rfl

end ServerHealth

/-- The orders in which a synchronisation goes through the maps. -/
structure SyncOrders extends UpdateOrders where
  registry : IterationOrder ServerId

namespace ProxyState

/-- `ProxyState::new`, up to the spawned task. -/
noncomputable def newChecked (cfg : Config) (created : ℕ → Instant) (seed : BitVec 64) :
    Except Panic ProxyState := do
  let serverIds := backendIds cfg.backendPool.length
  let scoreboard ← Scoreboard.withServersChecked (inDomainZero serverIds)
    ScoreboardConfig.default created
  return {
    router := Router.new scoreboard serverIds cfg.safety seed
    backends := cfg.backendPool
    registry := Finmap.insertAll id (fun _ => ServerHealth.new) serverIds ∅
    latencySlo := cfg.latencySlo
    fiveXxWindow := cfg.fiveXxWindow
    requestsTotal := 0
    algorithm := cfg.algorithm
    rrCursor := 0 }

/-- The loop of `sync_scoreboard` over the registry. The windows are pruned where they are read. -/
noncomputable def predictAll (p : ProxyState) (order : IterationOrder ServerId)
    (clock : ServerId → Instant × Instant) :
    Except Panic (Predictions × Finmap fun _ : ServerId => ServerHealth) :=
  forEntries order p.registry (∅, p.registry) fun acc sid health => do
    let (prediction, health) ←
      health.predictionChecked p.latencySlo p.fiveXxWindow (clock sid).1 (clock sid).2
    return (acc.1.insert sid prediction, acc.2.insert sid health)

/-- `sync_scoreboard`. -/
noncomputable def syncScoreboardChecked (p : ProxyState) (orders : SyncOrders)
    (clock : ServerId → Instant × Instant) (now : Instant) : Except Panic ProxyState := do
  let (predictions, registry) ← p.predictAll orders.registry clock
  let scoreboard ← p.router.scoreboard.updateScoresChecked orders.toUpdateOrders predictions 0 now
  return { p with router := { p.router with scoreboard := scoreboard }, registry := registry }

theorem newChecked_eq (cfg : Config) (created : ℕ → Instant) (seed : BitVec 64) :
    newChecked cfg created seed = .ok (new cfg created seed) := by
  unfold newChecked
  dsimp only
  rw [Scoreboard.withServersChecked_eq]
  rfl

/-- What the loop has done for the backends in `done`: their predictions are there, and their
health is the pruned one. -/
def Predicted (p : ProxyState) (clock : ServerId → Instant × Instant) (done : List ServerId)
    (acc : Predictions × Finmap fun _ : ServerId => ServerHealth) : Prop :=
  Filled p.registry (fun s h =>
      (h.prediction p.latencySlo p.fiveXxWindow (clock s).1 (clock s).2).1) ∅ done acc.1 ∧
    Filled p.registry (fun s h =>
      (h.prediction p.latencySlo p.fiveXxWindow (clock s).1 (clock s).2).2) p.registry done acc.2

/-- The loop makes one pass over the registry. -/
theorem predictAll_eq (p : ProxyState) (order : IterationOrder ServerId)
    (clock : ServerId → Instant × Instant) :
    p.predictAll order clock = .ok
      (p.registry.mapWithKey fun s h =>
        (h.prediction p.latencySlo p.fiveXxWindow (clock s).1 (clock s).2).1,
      p.registry.mapWithKey fun s h =>
        (h.prediction p.latencySlo p.fiveXxWindow (clock s).1 (clock s).2).2) := by
  have hloop : ∃ acc, p.predictAll order clock = .ok acc ∧
      p.Predicted clock (order.toList p.registry.keys) acc := by
    refine forEntries_rule (I := p.Predicted clock) ⟨Filled.nil, Filled.nil⟩ ?_
    rintro done sid health acc - hhealth ⟨hpred, hreg⟩
    refine ⟨(_, _), ?_, hpred.insert hhealth, hreg.insert hhealth⟩
    dsimp only
    rw [ServerHealth.predictionChecked_eq]
    rfl
  obtain ⟨acc, hacc, hpred, hreg⟩ := hloop
  rw [hacc]
  exact congrArg Except.ok
    (Prod.ext (hpred.eq_mapWithKey (by simp)) (hreg.eq_mapWithKey (Finset.Subset.refl _)))

/-- **No recorded health makes a synchronisation panic.** The registry may be any. So this is also
about a synchronisation that other threads interrupt: it reads one field after another, and what it
has read in the end is the health of no single moment, but a health all the same. -/
theorem syncScoreboardChecked_eq {p : ProxyState} (hcfg : p.router.scoreboard.config.Valid)
    (orders : SyncOrders) (clock : ServerId → Instant × Instant) (now : Instant) :
    ∃ p', p.syncScoreboardChecked orders clock now = .ok p' ∧
      p.syncScoreboard clock now = some p' := by
  unfold syncScoreboardChecked syncScoreboard
  dsimp only
  rw [predictAll_eq, Scoreboard.updateScores_eq hcfg]
  refine ⟨_, ?_, rfl⟩
  show (Scoreboard.updateScoresChecked _ _ _ _ _ >>= _) = _
  rw [Scoreboard.updateScoresChecked_eq hcfg]
  rfl

end ProxyState

/-! ### The loop next to the requests -/

/-- What the loop relies on of `tokio::time::interval`: it panics on a period of zero, and on no
other. -/
structure Timer where
  intervalPanics : Duration → Bool
  intervalPanics_iff : ∀ period, intervalPanics period = true ↔ period = 0

/-- Where the task of `health_loop` stands. -/
inductive HealthLoop where
  /-- It has not been polled yet. -/
  | spawned
  /-- It awaits the next tick. -/
  | ticking
  | panicked (why : Panic)

/-- The proxy with its requests, and its health loop. -/
structure Process where
  state : State
  healthPoll : Duration
  healthLoop : HealthLoop

/-- What is scheduled next: a step of a request, or of the loop. -/
inductive Turn where
  | request (e : Event)
  | startLoop
  | tick (orders : SyncOrders) (clock : ServerId → Instant × Instant) (now : Instant)

namespace Process

/-- `ProxyState::new`, with the task it spawns. -/
noncomputable def start (cfg : FullConfig) (created : ℕ → Instant) (seed : BitVec 64) :
    Except Panic Process := do
  let proxy ← ProxyState.newChecked cfg.toConfig created seed
  return { state := ⟨proxy, []⟩, healthPoll := cfg.healthPoll, healthLoop := .spawned }

/-- One turn, where it is possible. A synchronisation is a turn of the loop. -/
noncomputable def step (timer : Timer) (pr : Process) : Turn → Option Process
  | .request (.syncScoreboard _ _) => none
  | .request e => (pr.state.step e).map fun state => { pr with state := state }
  | .startLoop =>
    match pr.healthLoop with
    | .spawned => some { pr with
        healthLoop :=
          if timer.intervalPanics pr.healthPoll then .panicked .zeroPeriod else .ticking }
    | _ => none
  | .tick orders clock now =>
    match pr.healthLoop with
    | .ticking =>
      match pr.state.proxy.syncScoreboardChecked orders clock now with
      | .ok proxy => some { pr with state := { pr.state with proxy := proxy } }
      -- a panic ends the task, and nothing but the task
      | .error why => some { pr with healthLoop := .panicked why }
    | _ => none

/-- A run: the turns one after another. -/
noncomputable def run (timer : Timer) (pr : Process) (turns : List Turn) : Option Process :=
  turns.foldlM (step timer) pr

/-- The loop has not panicked, and no request is about to take the URL of a backend from beyond the
end of the list. -/
structure PanicFree (pr : Process) : Prop where
  healthLoop : ∀ why, pr.healthLoop ≠ .panicked why
  backendUrl : ∀ sid, Phase.dispatched sid ∈ pr.state.requests →
    sid.id < pr.state.proxy.backends.length

end Process

/-! ### What the requests leave alone -/

namespace ProxyState

/-- The same backends, entered in the registry, and the same scoreboard. -/
structure SamePool (p p' : ProxyState) : Prop where
  backends : p'.backends = p.backends
  keys : p'.registry.keys = p.registry.keys
  scoreboard : p'.router.scoreboard = p.router.scoreboard

theorem SamePool.refl (p : ProxyState) : SamePool p p := ⟨rfl, rfl, rfl⟩

theorem SamePool.trans {p p' p'' : ProxyState} (h : SamePool p p') (h' : SamePool p' p'') :
    SamePool p p'' :=
  ⟨h'.backends.trans h.backends, h'.keys.trans h.keys, h'.scoreboard.trans h.scoreboard⟩

theorem samePool_updateHealth (p : ProxyState) (sid : ServerId)
    (f : ServerHealth → ServerHealth) : SamePool p (p.updateHealth sid f) :=
  ⟨rfl, Finmap.keys_mapWithKey _ _, rfl⟩

theorem samePool_snapshotSignals (p : ProxyState) (clock : ServerId → Instant) :
    SamePool p (p.snapshotSignals clock).2 :=
  ⟨rfl, Finmap.keys_mapWithKey _ _, rfl⟩

theorem samePool_healthResponse (p : ProxyState) (clock : ServerId → Instant) :
    SamePool p (p.healthResponse clock) :=
  ⟨rfl, Finmap.keys_mapWithKey _ _, rfl⟩

theorem samePool_metricsResponse (p : ProxyState) (clock : ServerId → Instant) :
    SamePool p (p.metricsResponse clock) :=
  ⟨rfl, Finmap.keys_mapWithKey _ _, rfl⟩

/-- A decision advances the generator or the cursor. -/
theorem samePool_route (p : ProxyState) (signals : SignalMap) (now : Instant) :
    SamePool p (p.route signals now).2 := by
  unfold route Router.chooseServer
  cases p.algorithm with
  | p2c =>
    dsimp only
    split_ifs <;> exact ⟨rfl, rfl, rfl⟩
  | roundRobin =>
    dsimp only
    split_ifs <;> exact ⟨rfl, rfl, rfl⟩

theorem samePool_onDone (p : ProxyState) (sid : ServerId) (called : Bool) :
    SamePool p (State.onDone p sid called) := by
  cases called with
  | true => exact samePool_updateHealth p sid _
  | false => exact SamePool.refl p

end ProxyState

namespace State

open ProxyState

/-- A step of a request: the pool is the same, and whatever is dispatched in `st'` was dispatched
before or is in the registry. -/
structure RequestStep (st st' : State) : Prop where
  samePool : SamePool st.proxy st'.proxy
  dispatched : ∀ sid, Phase.dispatched sid ∈ st'.requests →
    Phase.dispatched sid ∈ st.requests ∨ sid ∈ st.proxy.registry.keys

variable {st st' : State} {proxy : ProxyState} {i : ℕ} {phase : Phase}

theorem RequestStep.push (h : SamePool st.proxy proxy)
    (hphase : ∀ sid, phase = .dispatched sid → sid ∈ st.proxy.registry.keys) :
    RequestStep st (st.push phase proxy) := by
  refine ⟨h, fun sid hsid => ?_⟩
  rcases List.mem_append.mp hsid with hold | hnew
  · exact Or.inl hold
  · exact Or.inr (hphase sid (List.mem_singleton.mp hnew).symm)

theorem RequestStep.move (h : SamePool st.proxy proxy) (hphase : ∀ sid, phase ≠ .dispatched sid) :
    RequestStep st (st.move i phase proxy) := by
  refine ⟨h, fun sid hsid => ?_⟩
  rcases List.mem_or_eq_of_mem_set hsid with hold | hnew
  · exact Or.inl hold
  · exact absurd hnew.symm (hphase sid)

theorem requestStep_arrive (st : State) (req : Request) (clock : ServerId → Instant)
    (now : Instant) : RequestStep st (st.arrive req clock now) := by
  have hroute : SamePool st.proxy
      ((st.proxy.snapshotSignals clock).2.route (st.proxy.snapshotSignals clock).1 now).2 :=
    (samePool_snapshotSignals _ _).trans (samePool_route _ _ _)
  unfold State.arrive
  split
  · exact .push (samePool_healthResponse _ _) fun sid h => by cases h
  split
  · exact .push (samePool_metricsResponse _ _) fun sid h => by cases h
  dsimp only
  split
  · exact .push hroute fun sid h => by cases h
  · next sid _ =>
    split
    · exact .push hroute fun sid h => by cases h
    · next health hhealth =>
      -- the request is dispatched to a backend that the registry knows
      have hbegin := samePool_updateHealth
        ((st.proxy.snapshotSignals clock).2.route (st.proxy.snapshotSignals clock).1 now).2 sid
        ServerHealth.begin
      refine .push ⟨?_, ?_, ?_⟩ ?_
      · exact hbegin.backends.trans hroute.backends
      · exact hbegin.keys.trans hroute.keys
      · exact hbegin.scoreboard.trans hroute.scoreboard
      · rintro _ ⟨⟩
        rw [← hroute.keys]
        exact Finmap.mem_keys.mpr (Finmap.mem_of_lookup_eq_some hhealth)

theorem requestStep_build (st : State) (i : ℕ) (sid : ServerId) (outcome : BuildOutcome) :
    RequestStep st (st.build i sid outcome) := by
  cases outcome with
  | badTarget => exact .move (samePool_updateHealth _ _ _) fun sid h => by cases h
  | buildFailed => exact .move (samePool_updateHealth _ _ _) fun sid h => by cases h
  | built => exact .move (SamePool.refl _) fun sid h => by cases h

theorem requestStep_respond (st : State) (i : ℕ) (sid : ServerId) (upstream : Upstream)
    (latency : Duration) (now : Instant) :
    RequestStep st (st.respond i sid upstream latency now) := by
  cases upstream with
  | ok status => exact .move (samePool_updateHealth _ _ _) fun sid h => by cases h
  | error =>
    exact .move ((samePool_updateHealth _ _ _).trans (samePool_updateHealth _ _ _))
      fun sid h => by cases h

/-- No step of a request touches the pool. -/
theorem requestStep_of_step {e : Event} (h : st.step e = some st')
    (he : ∀ clock now, e ≠ .syncScoreboard clock now) : RequestStep st st' := by
  cases e with
  | arrive req clock now =>
    cases h
    exact requestStep_arrive st req clock now
  | build i outcome =>
    obtain ⟨sid, -, rfl⟩ := step_build h
    exact requestStep_build st i sid outcome
  | respond i upstream latency now =>
    obtain ⟨sid, -, rfl⟩ := step_respond h
    exact requestStep_respond st i sid upstream latency now
  | clientGone i =>
    obtain ⟨sid, -, rfl⟩ := step_clientGone h
    exact .move (SamePool.refl _) fun sid h => by cases h
  | pollBody i poll =>
    obtain ⟨sid, status, body, -, rfl⟩ := step_pollBody h
    exact .move (samePool_onDone _ _ _) fun sid h => by cases h
  | dropBody i =>
    obtain ⟨sid, status, body, -, rfl⟩ := step_dropBody h
    exact .move (samePool_onDone _ _ _) fun sid h => by cases h
  | syncScoreboard clock now => exact absurd rfl (he clock now)

end State

/-! ### Every run -/

namespace Process

variable {timer : Timer} {pr pr' pr₀ : Process} {turns : List Turn}

/-- Three kinds of turn. -/
theorem step_cases {turn : Turn} (h : pr.step timer turn = some pr') :
    (∃ state, State.RequestStep pr.state state ∧ pr' = { pr with state := state }) ∨
    (pr.healthLoop = .spawned ∧ pr' = { pr with
      healthLoop :=
        if timer.intervalPanics pr.healthPoll then .panicked .zeroPeriod else .ticking }) ∨
    (pr.healthLoop = .ticking ∧ ∃ orders clock now,
      (∃ proxy, pr.state.proxy.syncScoreboardChecked orders clock now = .ok proxy ∧
        pr' = { pr with state := { pr.state with proxy := proxy } }) ∨
      ∃ why, pr.state.proxy.syncScoreboardChecked orders clock now = .error why ∧
        pr' = { pr with healthLoop := .panicked why }) := by
  cases turn with
  | request e =>
    by_cases he : ∃ clock now, e = .syncScoreboard clock now
    · -- that is a turn of the loop
      obtain ⟨clock, now, rfl⟩ := he
      cases h
    · have hstep : (pr.state.step e).map (fun state => { pr with state := state }) = some pr' := by
        cases e <;> first | exact h | exact absurd ⟨_, _, rfl⟩ he
      obtain ⟨state, hstate, rfl⟩ := Option.map_eq_some_iff.mp hstep
      refine Or.inl ⟨state, State.requestStep_of_step hstate ?_, rfl⟩
      exact fun clock now heq => he ⟨clock, now, heq⟩
  | startLoop =>
    simp only [step] at h
    split at h
    · next hloop =>
      cases h
      exact Or.inr (Or.inl ⟨hloop, rfl⟩)
    · cases h
  | tick orders clock now =>
    simp only [step] at h
    split at h
    · next hloop =>
      split at h
      · next proxy hproxy =>
        cases h
        exact Or.inr (Or.inr ⟨hloop, orders, clock, now, Or.inl ⟨proxy, hproxy, rfl⟩⟩)
      · next why hwhy =>
        cases h
        exact Or.inr (Or.inr ⟨hloop, orders, clock, now, Or.inr ⟨why, hwhy, rfl⟩⟩)
    · cases h

/-- **The run rule of the process.** -/
theorem run_induction {I : Process → Prop} (hrun : pr₀.run timer turns = some pr) (h₀ : I pr₀)
    (hstep : ∀ pr pr' turn, pr.step timer turn = some pr' → I pr → I pr') : I pr :=
  Runs.foldlM_induction hrun h₀ fun pr pr' turn _ => hstep pr pr' turn

/-- The scoreboard is tuned in a valid way, the registry has the backends of the list, and the
requests are dispatched to backends of the registry. -/
structure Sound (pr : Process) : Prop where
  config : pr.state.proxy.router.scoreboard.config.Valid
  keys : pr.state.proxy.registry.keys = (backendIds pr.state.proxy.backends.length).toFinset
  dispatched : ∀ sid, Phase.dispatched sid ∈ pr.state.requests →
    sid ∈ pr.state.proxy.registry.keys

theorem Sound.of_requestStep (h : pr.Sound) {state : State}
    (hstep : State.RequestStep pr.state state) : ({ pr with state := state } : Process).Sound where
  config := by
    show state.proxy.router.scoreboard.config.Valid
    rw [hstep.samePool.scoreboard]
    exact h.config
  keys := by
    show state.proxy.registry.keys = (backendIds state.proxy.backends.length).toFinset
    rw [hstep.samePool.keys, hstep.samePool.backends]
    exact h.keys
  dispatched := by
    intro sid hsid
    show sid ∈ state.proxy.registry.keys
    rw [hstep.samePool.keys]
    exact (hstep.dispatched sid hsid).elim (h.dispatched sid) id

/-- A synchronisation keeps the tuning, the registry and the list. -/
theorem Sound.of_sync (h : pr.Sound) {proxy : ProxyState} {clock : ServerId → Instant × Instant}
    {now : Instant} (hproxy : pr.state.proxy.syncScoreboard clock now = some proxy) :
    ({ pr with state := { pr.state with proxy := proxy } } : Process).Sound := by
  unfold ProxyState.syncScoreboard at hproxy
  dsimp only at hproxy
  rw [Scoreboard.updateScores_eq h.config] at hproxy
  cases hproxy
  refine ⟨h.config, ?_, ?_⟩
  · exact (Finmap.keys_mapWithKey _ _).trans h.keys
  · intro sid hsid
    show sid ∈ (Finmap.mapWithKey _ _).keys
    rw [Finmap.keys_mapWithKey]
    exact h.dispatched sid hsid

theorem Sound.backendUrl (h : pr.Sound) {sid : ServerId}
    (hsid : Phase.dispatched sid ∈ pr.state.requests) :
    sid.id < pr.state.proxy.backends.length := by
  have hmem := h.dispatched sid hsid
  rw [h.keys, List.mem_toFinset, backendIds, List.mem_map] at hmem
  obtain ⟨i, hi, rfl⟩ := hmem
  exact List.mem_range.mp hi

/-- The proxy starts. -/
theorem start_eq (cfg : FullConfig) (created : ℕ → Instant) (seed : BitVec 64) :
    start cfg created seed = .ok
      { state := State.init cfg.toConfig created seed
        healthPoll := cfg.healthPoll
        healthLoop := .spawned } := by
  unfold start
  rw [ProxyState.newChecked_eq]
  rfl

/-- The loop of a proxy that has just started is still to be polled. -/
structure Fresh (cfg : FullConfig) (pr : Process) : Prop where
  sound : pr.Sound
  healthPoll : pr.healthPoll = cfg.healthPoll
  healthLoop : pr.healthLoop = .spawned

theorem fresh_of_start {cfg : FullConfig} {created : ℕ → Instant} {seed : BitVec 64}
    (h : start cfg created seed = .ok pr) : Fresh cfg pr := by
  rw [start_eq] at h
  cases h
  refine ⟨⟨ScoreboardConfig.default_valid, ?_, fun sid hsid => by cases hsid⟩, rfl, rfl⟩
  -- one entry of the registry for each backend
  ext sid
  show sid ∈ (Finmap.insertAll id _ (backendIds cfg.backendPool.length) ∅).keys ↔ _
  rw [Finmap.mem_keys, Finmap.mem_insertAll, List.map_id, List.mem_toFinset]
  simp only [Finmap.notMem_empty, or_false]
  rfl

/-- A loop with a period that is not zero does not panic, whatever the requests record. -/
structure Running (pr : Process) : Prop where
  sound : pr.Sound
  healthPoll : pr.healthPoll ≠ 0
  healthLoop : ∀ why, pr.healthLoop ≠ .panicked why

theorem Running.step {turn : Turn} (h : pr.Running) (hstep : pr.step timer turn = some pr') :
    pr'.Running := by
  obtain ⟨state, hreq, rfl⟩ | ⟨-, rfl⟩ | ⟨-, orders, clock, now, hsync⟩ := step_cases hstep
  · exact ⟨h.sound.of_requestStep hreq, h.healthPoll, h.healthLoop⟩
  · -- the interval is created
    have hno : timer.intervalPanics pr.healthPoll ≠ true :=
      fun hp => h.healthPoll ((timer.intervalPanics_iff _).mp hp)
    rw [if_neg hno]
    exact ⟨⟨h.sound.config, h.sound.keys, h.sound.dispatched⟩, h.healthPoll,
      fun why hw => by cases hw⟩
  · obtain ⟨p', hok, hsome⟩ :=
      ProxyState.syncScoreboardChecked_eq h.sound.config orders clock now
    obtain ⟨proxy, hproxy, rfl⟩ | ⟨why, hwhy, -⟩ := hsync
    · rw [hok] at hproxy
      cases hproxy
      exact ⟨h.sound.of_sync hsome, h.healthPoll, h.healthLoop⟩
    · rw [hok] at hwhy
      cases hwhy

theorem Running.panicFree (h : pr.Running) : pr.PanicFree :=
  ⟨h.healthLoop, fun _ => h.sound.backendUrl⟩

/-- On a period of zero the first turn of the loop is its last. -/
theorem Fresh.startLoop_panics {cfg : FullConfig} (h : Fresh cfg pr) (hpoll : cfg.healthPoll = 0)
    (timer : Timer) :
    ∃ pr', pr.run timer [.startLoop] = some pr' ∧ pr'.healthLoop = .panicked .zeroPeriod := by
  refine ⟨{ pr with healthLoop := .panicked .zeroPeriod }, ?_, rfl⟩
  show (pr.step timer .startLoop >>= fun pr' => some pr') = _
  simp only [step]
  rw [h.healthLoop, h.healthPoll, if_pos ((timer.intervalPanics_iff _).mpr hpoll)]
  rfl

/-- **When the process runs without a panic.** With a configuration that `from_env` has accepted
the proxy starts. In every run of its requests and its loop nothing panics, if and only if
`HEALTH_POLL_MS` is not set to a text of the number zero. -/
theorem healthLoop_panicFree_iff (timer : Timer) {parseUri : String → Except String Uri} {env : Env}
    {cfg : FullConfig} (hcfg : FullConfig.fromEnv parseUri env = .ok cfg) :
    (∀ created seed, ∃ pr₀, start cfg created seed = .ok pr₀ ∧
      ∀ turns pr, pr₀.run timer turns = some pr → pr.PanicFree) ↔
    ¬ ∃ v, env "HEALTH_POLL_MS" = some v ∧ IsZero (trim v.toList) := by
  obtain ⟨poolRaw, -, -, -, rfl⟩ := FullConfig.fromEnv_eq_ok_iff.mp hcfg
  rw [← envU64_eq_zero_iff (by decide : 500 ≠ 0)]
  constructor
  · intro h hzero
    obtain ⟨pr₀, hpr₀, hruns⟩ := h (fun _ => 0) 0
    obtain ⟨pr, hrun, hpanicked⟩ :=
      (fresh_of_start hpr₀).startLoop_panics (millis_eq_zero_iff.mpr hzero) timer
    exact (hruns _ pr hrun).healthLoop .zeroPeriod hpanicked
  · intro hne created seed
    have hstart := start_eq (FullConfig.ofEnv env (FullConfig.backendUrls poolRaw)) created seed
    have hfresh := fresh_of_start hstart
    refine ⟨_, hstart, fun turns pr hrun => ?_⟩
    have hrunning : pr.Running := by
      refine run_induction hrun ⟨hfresh.sound, mt millis_eq_zero_iff.mp hne, ?_⟩ ?_
      · exact fun why hw => by cases hw
      · exact fun _ _ _ hstep h => h.step hstep
    exact hrunning.panicFree

/-! ### One backend on this machine -/

/-- One backend, and what `HEALTH_POLL_MS` is set to. -/
def localEnv (healthPollMs : String) : Env := fun key =>
  if key = "BACKEND_POOL" then some "http://localhost:3001"
  else if key = "HEALTH_POLL_MS" then some healthPollMs
  else none

/-- The parts of its URL. -/
def localUri (url : String) : Except String Uri :=
  if url = "http://localhost:3001" then .ok ⟨some "http", some "localhost:3001"⟩
  else .error "invalid uri character"

def localTimer : Timer where
  intervalPanics period := period == 0
  intervalPanics_iff period := by simp

theorem fromEnv_localEnv (healthPollMs : String) :
    FullConfig.fromEnv localUri (localEnv healthPollMs) =
      .ok (FullConfig.ofEnv (localEnv healthPollMs) ["http://localhost:3001"]) := by
  have hurls : FullConfig.backendUrls "http://localhost:3001" = ["http://localhost:3001"] := by
    decide +kernel
  refine FullConfig.fromEnv_eq_ok_iff.mpr ⟨"http://localhost:3001", rfl, ?_⟩
  rw [hurls]
  refine ⟨List.cons_ne_nil _ _, ?_, rfl⟩
  intro url hurl
  rw [List.mem_singleton] at hurl
  subst hurl
  exact ⟨⟨some "http", some "localhost:3001"⟩, rfl, by simp, by simp⟩

theorem healthLoop_panicFree_iff_ten :
    (∀ created seed, ∃ pr₀,
      start (FullConfig.ofEnv (localEnv "10") ["http://localhost:3001"]) created seed = .ok pr₀ ∧
        ∀ turns pr, pr₀.run localTimer turns = some pr → pr.PanicFree) ↔
    ¬ ∃ v, localEnv "10" "HEALTH_POLL_MS" = some v ∧ IsZero (trim v.toList) :=
  healthLoop_panicFree_iff localTimer (fromEnv_localEnv "10")

/-- A zero is accepted, and the first turn of the loop is a panic. -/
theorem healthLoop_panics : ∃ cfg pr₀ pr,
    FullConfig.fromEnv localUri (localEnv "0") = .ok cfg ∧
    start cfg (fun _ => 0) 0 = .ok pr₀ ∧
    pr₀.run localTimer [.startLoop] = some pr ∧
    pr.healthLoop = .panicked .zeroPeriod := by
  have hzero : envU64 (localEnv "0") "HEALTH_POLL_MS" 500 = 0 := by decide +kernel
  have hstart := start_eq (FullConfig.ofEnv (localEnv "0") ["http://localhost:3001"])
    (fun _ => 0) 0
  obtain ⟨pr, hrun, hpanicked⟩ :=
    (fresh_of_start hstart).startLoop_panics (millis_eq_zero_iff.mpr hzero) localTimer
  exact ⟨_, _, pr, fromEnv_localEnv "0", hstart, hrun, hpanicked⟩

/-! ### A loop that has panicked -/

/-- With a period of zero the scoreboard is for ever the one that the proxy has started with. -/
theorem scoreboard_frozen {cfg : FullConfig} {created : ℕ → Instant} {seed : BitVec 64}
    (hpoll : cfg.healthPoll = 0) (hstart : start cfg created seed = .ok pr₀)
    (hrun : pr₀.run timer turns = some pr) :
    pr.state.proxy.router.scoreboard = pr₀.state.proxy.router.scoreboard := by
  have hfresh := fresh_of_start hstart
  have hinv : pr.healthPoll = 0 ∧ pr.healthLoop ≠ .ticking ∧
      pr.state.proxy.router.scoreboard = pr₀.state.proxy.router.scoreboard := by
    refine run_induction (I := fun pr => pr.healthPoll = 0 ∧ pr.healthLoop ≠ .ticking ∧
      pr.state.proxy.router.scoreboard = pr₀.state.proxy.router.scoreboard) hrun ?_ ?_
    · refine ⟨hfresh.healthPoll.trans hpoll, ?_, rfl⟩
      rw [hfresh.healthLoop]
      exact fun h => by cases h
    rintro pr pr' turn hstep ⟨hpoll, hloop, hboard⟩
    obtain ⟨state, hreq, rfl⟩ | ⟨-, rfl⟩ | ⟨hticking, -⟩ := step_cases hstep
    · exact ⟨hpoll, hloop, hreq.samePool.scoreboard.trans hboard⟩
    · -- the loop does not get beyond its interval
      rw [if_pos ((timer.intervalPanics_iff _).mpr hpoll)]
      exact ⟨hpoll, fun h => (by cases h), hboard⟩
    · exact absurd hticking hloop
  exact hinv.2.2

end Process

end ScalableBooking.LbProxy
