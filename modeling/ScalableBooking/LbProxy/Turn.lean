import ScalableBooking.LbProxy.InFlight

/-!
# The cursor

With `RoutingAlgorithm::RoundRobin` a request that is no probe takes the next value of the cursor
(`InTurn.arrive`). Nothing else moves it (`SameTurn`).
-/

namespace ScalableBooking.LbProxy

open RouterCore

/-- A proxy that deals out `n` backends in turn, all of them in the registry. -/
structure InTurn (n : ℕ) (p : ProxyState) : Prop where
  algorithm : p.algorithm = .roundRobin
  backends : p.backends.length = n
  registry : ∀ i < n, p.registry.lookup ⟨i⟩ ≠ none

/-- Two proxies with the same cursor, and with everything that `InTurn` looks at. -/
structure SameTurn (p p' : ProxyState) : Prop where
  algorithm : p'.algorithm = p.algorithm
  backends : p'.backends = p.backends
  registry : ∀ sid, p'.registry.lookup sid = none ↔ p.registry.lookup sid = none
  rrCursor : p'.rrCursor = p.rrCursor

theorem InTurn.of_same {n : ℕ} {p p' : ProxyState} (h : InTurn n p) (hsame : SameTurn p p') :
    InTurn n p' where
  algorithm := hsame.algorithm.trans h.algorithm
  backends := by rw [hsame.backends, h.backends]
  registry i hi := mt (hsame.registry ⟨i⟩).mp (h.registry i hi)

namespace SameTurn

theorem refl (p : ProxyState) : SameTurn p p := ⟨rfl, rfl, fun _ => .rfl, rfl⟩

theorem trans {p p' p'' : ProxyState} (h : SameTurn p p') (h' : SameTurn p' p'') :
    SameTurn p p'' where
  algorithm := h'.algorithm.trans h.algorithm
  backends := h'.backends.trans h.backends
  registry sid := (h'.registry sid).trans (h.registry sid)
  rrCursor := h'.rrCursor.trans h.rrCursor

theorem mapWithKey (p : ProxyState) (f : ServerId → ServerHealth → ServerHealth) :
    SameTurn p { p with registry := p.registry.mapWithKey f } where
  algorithm := rfl
  backends := rfl
  registry sid := by rw [Finmap.lookup_mapWithKey, Option.map_eq_none_iff]
  rrCursor := rfl

theorem updateHealth (p : ProxyState) (sid : ServerId) (f : ServerHealth → ServerHealth) :
    SameTurn p (p.updateHealth sid f) :=
  mapWithKey p _

theorem onDone (p : ProxyState) (sid : ServerId) (called : Bool) :
    SameTurn p (State.onDone p sid called) := by
  unfold State.onDone
  split
  · exact updateHealth p sid _
  · exact refl p

theorem syncScoreboard {p p' : ProxyState} {clock : ServerId → Instant × Instant} {now : Instant}
    (h : p.syncScoreboard clock now = some p') : SameTurn p p' := by
  obtain ⟨scoreboard, -, rfl⟩ := Option.map_eq_some_iff.mp h
  have hmap := mapWithKey p fun s h =>
    (h.prediction p.latencySlo p.fiveXxWindow (clock s).1 (clock s).2).2
  exact ⟨rfl, rfl, hmap.registry, rfl⟩

end SameTurn

/-- A proxy that has just been built deals out its pool. -/
theorem inTurn_init {cfg : Config} (halg : cfg.algorithm = .roundRobin) (created : ℕ → Instant)
    (seed : BitVec 64) :
    InTurn cfg.backendPool.length (State.init cfg created seed).proxy where
  algorithm := halg
  backends := rfl
  registry i hi := by
    have hmem : (⟨i⟩ : ServerId) ∈ backendIds cfg.backendPool.length :=
      List.mem_map_of_mem (List.mem_range.mpr hi)
    show (ProxyState.new cfg created seed).registry.lookup ⟨i⟩ ≠ none
    rw [ProxyState.lookup_registry_new hmem]
    exact Option.some_ne_none _

/-! ### Arrivals -/

section Arrive

variable {n : ℕ} {st : State}

/-- A probe is answered, and every other request takes the next value of the cursor. -/
theorem InTurn.arrive (h : InTurn n st.proxy) (hn : 0 < n) (req : Request)
    (clock : ServerId → Instant) (now : Instant) :
    (∃ reply proxy, (req.path = "/health" ∨ req.path = "/metrics") ∧ SameTurn st.proxy proxy ∧
        st.arrive req clock now = st.push (.answered reply) proxy) ∨
      ∃ proxy, InTurn n proxy ∧ proxy.rrCursor = st.proxy.rrCursor + 1 ∧
        st.arrive req clock now =
          st.push (.dispatched ⟨st.proxy.rrCursor.toNat % n⟩) proxy := by
  by_cases hhealth : req.method = "GET" ∧ req.path = "/health"
  · exact .inl ⟨_, _, .inl hhealth.2, .mapWithKey st.proxy _, if_pos hhealth⟩
  by_cases hmetrics : req.method = "GET" ∧ req.path = "/metrics"
  · exact .inl ⟨_, _, .inr hmetrics.2, .mapWithKey st.proxy _,
      (if_neg hhealth).trans (if_pos hmetrics)⟩
  have hsnap : SameTurn st.proxy (st.proxy.snapshotSignals clock).2 :=
    SameTurn.mapWithKey st.proxy _
  have hturn := h.of_same hsnap
  have hroute := route_roundRobin hturn.algorithm (by rw [hturn.backends]; omega)
    (st.proxy.snapshotSignals clock).1 now
  rw [hturn.backends, hsnap.rrCursor] at hroute
  -- the backend whose turn it is has an entry
  have hlookup := hturn.registry (st.proxy.rrCursor.toNat % n) (Nat.mod_lt _ hn)
  obtain ⟨health, hlookup⟩ := Option.ne_none_iff_exists'.mp hlookup
  refine .inr ⟨_, ?_, ?_, State.arrive_of_route hhealth hmetrics hroute hlookup⟩
  · have hbegin := SameTurn.updateHealth (st.proxy.snapshotSignals clock).2
      ⟨st.proxy.rrCursor.toNat % n⟩ ServerHealth.begin
    have hturn' := hturn.of_same hbegin
    exact ⟨hturn'.algorithm, hturn'.backends, hturn'.registry⟩
  · rfl

/-- The next request for a page. -/
theorem InTurn.step_ping {proxy : ProxyState} (h : InTurn n proxy) (hn : 0 < n)
    {cursor : BitVec 64} (hcursor : proxy.rrCursor = cursor) (requests : List Phase) :
    ∃ proxy', InTurn n proxy' ∧ proxy'.rrCursor = cursor + 1 ∧
      (⟨proxy, requests⟩ : State).step ping =
        some ⟨proxy', requests ++ [.dispatched ⟨cursor.toNat % n⟩]⟩ := by
  subst hcursor
  have hst : InTurn n (State.mk proxy requests).proxy := h
  obtain ⟨_, _, hprobe, -⟩ | ⟨proxy', hturn, hcursor', harrive⟩ :=
    hst.arrive hn ⟨"GET", "/ping"⟩ (fun _ => 0) 0
  · simp at hprobe
  · exact ⟨proxy', hturn, hcursor', congrArg some harrive⟩

end Arrive

end ScalableBooking.LbProxy
