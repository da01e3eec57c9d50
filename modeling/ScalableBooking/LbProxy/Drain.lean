import ScalableBooking.LbProxy.Dispatch

/-!
# The accept loop and its drain

`run_until` of `lb-proxy/src/proxy.rs`. The loop accepts connections until the future of the
shutdown has resolved, which it looks at first (`biased`). Then `GracefulShutdown` waits for the
connections that have been accepted, for `DRAIN_TIMEOUT` at most. A connection serves one request at
a time, and `handle` runs as a part of it: whoever ends the connection drops the handler at its
await, or the body of the response.

An unsettled request is served by a connection that is open (`Front.Kept`). So the return of
`run_until` says where the requests are: if all connections have been drained, every request is
settled, and no backend is held for any (`drained_of_run`).

What a connection does after it has been told to shut down is left open, except that it ends by
itself only between two requests (`close`).
-/

namespace ScalableBooking.LbProxy

open RouterCore

/-! ### The loop -/

/-- Where `run_until` stands. It drains since a time, and it has returned `clean` if all connections
have been drained. -/
inductive RunUntil where
  | accepting
  | draining (since : ℕ)
  | returned (since : ℕ) (clean : Bool)
deriving DecidableEq, Repr

/-- An accepted connection: it waits for a request, serves the one of this number, or is gone. -/
inductive Conn where
  | waiting
  | serving (i : ℕ)
  | ended
deriving DecidableEq, Repr

/-- `DRAIN_TIMEOUT`, in milliseconds. -/
def drainTimeout : ℕ := 25000

/-- `run_until` with its connections, and the proxy behind it. `shutdown` says whether the future
has resolved. -/
structure Front where
  loop : RunUntil
  shutdown : Bool
  clock : ℕ
  conns : List Conn
  proxy : State

/-- `accept` with whether it has given a connection. `observe` is when the loop sees the shutdown.
`request` comes on a connection, `finish` is when its response has been written, with whether the
connection is kept alive. `hangUp` is the end of a connection from outside. `handler` are the steps
that a handler and its body make by themselves, and the slow loop. -/
inductive FrontEvent where
  | tick (ms : ℕ)
  | signal
  | accept (ok : Bool)
  | observe
  | request (c : ℕ) (req : Request) (clock : ServerId → Instant) (now : Instant)
  | handler (e : Event)
  | finish (c : ℕ) (keepAlive : Bool)
  | hangUp (c : ℕ)
  | close (c : ℕ)
  | drained
  | timedOut

/-- What becomes of request `i` when its response has been written. -/
def Phase.finish (i : ℕ) : Phase → Option (List Event)
  | answered _ => some []
  | streaming _ _ _ => some [.dropBody i]
  | _ => none

/-- And when its connection ends before. A handler stops only where it awaits. -/
def Phase.hangUp (i : ℕ) : Phase → Option (List Event)
  | answered _ => some []
  | awaiting _ => some [.clientGone i]
  | streaming _ _ _ => some [.dropBody i]
  | _ => none

/-- The steps of a handler, of its body and of the slow loop. -/
def Event.isHandler : Event → Bool
  | .build _ _ | .respond _ _ _ _ | .pollBody _ _ | .syncScoreboard _ _ => true
  | .arrive _ _ _ | .clientGone _ | .dropBody _ => false

namespace Front

noncomputable def init (cfg : Config) (created : ℕ → Instant) (seed : BitVec 64) : Front where
  loop := .accepting
  shutdown := false
  clock := 0
  conns := []
  proxy := State.init cfg created seed

/-- The connection is done with its request. -/
noncomputable def release (s : Front) (c : ℕ) (conn : Conn)
    (ends : ℕ → Phase → Option (List Event)) : Option Front :=
  match s.conns[c]? with
  | some (.serving i) =>
    (s.proxy.requests[i]?).bind fun phase =>
      (ends i phase).bind fun events =>
        (s.proxy.run events).map fun proxy => { s with conns := s.conns.set c conn, proxy }
  | _ => none

/-- One step before `run_until` has returned. -/
noncomputable def next (s : Front) : FrontEvent → Option Front
  | .tick ms => some { s with clock := s.clock + ms }
  | .signal => some { s with shutdown := true }
  | .accept ok =>
    -- `biased`: the shutdown is polled first
    if s.loop = .accepting ∧ s.shutdown = false then
      some (if ok then { s with conns := s.conns ++ [.waiting] } else s)
    else none
  | .observe =>
    if s.loop = .accepting ∧ s.shutdown = true then some { s with loop := .draining s.clock }
    else none
  | .request c req clock now =>
    if s.conns[c]? = some .waiting then
      some { s with
        conns := s.conns.set c (.serving s.proxy.requests.length)
        proxy := s.proxy.arrive req clock now }
    else none
  | .handler e =>
    if e.isHandler then (s.proxy.step e).map fun proxy => { s with proxy } else none
  | .finish c keepAlive => s.release c (if keepAlive then .waiting else .ended) Phase.finish
  | .hangUp c =>
    if s.conns[c]? = some .waiting then some { s with conns := s.conns.set c .ended }
    else s.release c .ended Phase.hangUp
  | .close c =>
    if s.loop ≠ .accepting ∧ s.conns[c]? = some .waiting then
      some { s with conns := s.conns.set c .ended }
    else none
  | .drained =>
    match s.loop with
    | .draining since =>
      if ∀ conn ∈ s.conns, conn = .ended then some { s with loop := .returned since true } else none
    | _ => none
  | .timedOut =>
    match s.loop with
    | .draining since =>
      -- `timeout` polls the drain before its own timer
      if since + drainTimeout ≤ s.clock ∧ ¬∀ conn ∈ s.conns, conn = .ended then
        some { s with loop := .returned since false }
      else none
    | _ => none

/-- One step, if it can happen. After the return there is none: `main` ends with it. -/
noncomputable def step (s : Front) (e : FrontEvent) : Option Front :=
  match s.loop with
  | .returned _ _ => none
  | _ => s.next e

noncomputable def run (s : Front) (es : List FrontEvent) : Option Front :=
  es.foldlM step s

end Front

/-! ### Settled requests -/

/-- Nothing is left to do for a request. -/
def Phase.settled : Phase → Bool
  | closed _ | answered _ | abandoned _ => true
  | dispatched _ | awaiting _ | streaming _ _ _ => false

theorem Phase.not_isHeld {sid : ServerId} {phase : Phase} (h : phase.settled = true) :
    phase.isHeld sid = false := by
  cases phase with
  | closed _ | answered _ | abandoned _ => rfl
  | _ => cases h

namespace State

variable {st st' : State} {i j : ℕ} {old phase phase' : Phase} {proxy : ProxyState}

/-- An unsettled request that is in the list. -/
def Unsettled (st : State) (i : ℕ) : Prop :=
  ∃ phase, st.requests[i]? = some phase ∧ phase.settled = false

theorem getElem_move (hi : st.requests[i]? = some old) :
    (st.move i phase proxy).requests[i]? = some phase := by
  obtain ⟨hlt, -⟩ := List.getElem?_eq_some_iff.mp hi
  exact List.getElem?_set_self hlt

theorem getElem_move_ne (hne : j ≠ i) :
    (st.move i phase proxy).requests[j]? = st.requests[j]? :=
  List.getElem?_set_ne hne.symm

/-- A request that was not settled goes on. -/
theorem Unsettled.of_move (hi : st.requests[i]? = some old) (hold : old.settled = false)
    (h : (st.move i phase proxy).Unsettled j) : st.Unsettled j := by
  obtain ⟨phase', hj, hphase⟩ := h
  by_cases hji : j = i
  · exact ⟨old, hji ▸ hi, hold⟩
  · exact ⟨phase', getElem_move_ne hji ▸ hj, hphase⟩

/-- A request is settled. -/
theorem Unsettled.of_settle (hi : st.requests[i]? = some old) (hsettled : phase.settled = true)
    (h : (st.move i phase proxy).Unsettled j) : j ≠ i ∧ st.Unsettled j := by
  obtain ⟨phase', hj, hphase⟩ := h
  by_cases hji : j = i
  · subst hji
    rw [getElem_move hi] at hj
    obtain rfl := Option.some.inj hj
    rw [hsettled] at hphase
    cases hphase
  · exact ⟨hji, phase', getElem_move_ne hji ▸ hj, hphase⟩

/-- A handler settles requests and unsettles none. -/
theorem Unsettled.of_handler {e : Event} (he : st.step e = some st') (hhandler : e.isHandler = true)
    (h : st'.Unsettled j) : st.Unsettled j := by
  cases e with
  | build i outcome =>
    obtain ⟨sid, hi, rfl⟩ := step_build he
    cases outcome <;> exact .of_move hi rfl h
  | respond i upstream latency now =>
    obtain ⟨sid, hi, rfl⟩ := step_respond he
    cases upstream <;> exact .of_move hi rfl h
  | pollBody i poll =>
    obtain ⟨sid, status, body, hi, rfl⟩ := step_pollBody he
    exact .of_move hi rfl h
  | syncScoreboard clock now =>
    obtain ⟨proxy, -, rfl⟩ := step_syncScoreboard he
    exact h
  | arrive _ _ _ | clientGone _ | dropBody _ => cases hhandler

/-- One request is added. -/
theorem Unsettled.of_arrive {req : Request} {clock : ServerId → Instant} {now : Instant}
    (h : (st.arrive req clock now).Unsettled j) : j = st.requests.length ∨ st.Unsettled j := by
  have hpush : ∃ phase, (st.arrive req clock now).requests = st.requests ++ [phase] := by
    obtain ⟨_, _, -, harrive⟩ | ⟨_, _, -, harrive⟩ := st.arrive_cases req clock now
    · exact ⟨_, congrArg requests harrive⟩
    · exact ⟨_, congrArg requests harrive⟩
  obtain ⟨phase, hpush⟩ := hpush
  obtain ⟨phase', hj, hphase⟩ := h
  rw [hpush] at hj
  obtain hlt | rfl | hgt := lt_trichotomy j st.requests.length
  · rw [List.getElem?_append_left hlt] at hj
    exact .inr ⟨phase', hj, hphase⟩
  · exact .inl rfl
  · rw [List.getElem?_eq_none (by simpa using hgt)] at hj
    cases hj

theorem run_singleton (st : State) (e : Event) : st.run [e] = st.step e := by
  simp [run]

/-- The request of a connection that has ended is settled, and no other has changed. -/
theorem Unsettled.of_hangUp {events : List Event} (hi : st.requests[i]? = some phase)
    (hends : phase.hangUp i = some events) (hrun : st.run events = some st')
    (h : st'.Unsettled j) : j ≠ i ∧ st.Unsettled j := by
  cases phase with
  | answered reply =>
    obtain rfl : [] = events := Option.some.inj hends
    obtain rfl : st = st' := Option.some.inj hrun
    refine ⟨?_, h⟩
    rintro rfl
    obtain ⟨phase, hphase, hunsettled⟩ := h
    rw [hi] at hphase
    obtain rfl := Option.some.inj hphase
    cases hunsettled
  | awaiting sid =>
    obtain rfl : [.clientGone i] = events := Option.some.inj hends
    rw [run_singleton] at hrun
    obtain ⟨_, hi, rfl⟩ := step_clientGone hrun
    exact Unsettled.of_settle hi rfl h
  | streaming sid status body =>
    obtain rfl : [.dropBody i] = events := Option.some.inj hends
    rw [run_singleton] at hrun
    obtain ⟨_, _, _, hi, rfl⟩ := step_dropBody hrun
    exact Unsettled.of_settle hi rfl h
  | _ => cases hends

end State

/-- A response that has been written ends like one that is dropped. -/
theorem Phase.hangUp_of_finish {i : ℕ} {phase : Phase} {events : List Event}
    (h : phase.finish i = some events) : phase.hangUp i = some events := by
  cases phase with
  | answered _ | streaming _ _ _ => exact h
  | _ => cases h

/-! ### One step -/

namespace Front

variable {s s' : Front} {c : ℕ}

/-- The steps, one by one. -/
inductive Steps (s : Front) : FrontEvent → Front → Prop
  | tick (ms : ℕ) : Steps s (.tick ms) { s with clock := s.clock + ms }
  | signal : Steps s .signal { s with shutdown := true }
  | accept (hshutdown : s.shutdown = false) (hloop : s.loop = .accepting) :
      Steps s (.accept true) { s with conns := s.conns ++ [.waiting] }
  | refused (hshutdown : s.shutdown = false) : Steps s (.accept false) s
  | observe (hshutdown : s.shutdown = true) :
      Steps s .observe { s with loop := .draining s.clock }
  | request {c : ℕ} {req : Request} {clock : ServerId → Instant} {now : Instant}
      (hconn : s.conns[c]? = some .waiting) :
      Steps s (.request c req clock now) { s with
        conns := s.conns.set c (.serving s.proxy.requests.length)
        proxy := s.proxy.arrive req clock now }
  | handler {e : Event} {proxy : State} (hhandler : e.isHandler = true)
      (hproxy : s.proxy.step e = some proxy) : Steps s (.handler e) { s with proxy }
  | release {e : FrontEvent} {c i : ℕ} {conn : Conn} {phase : Phase} {events : List Event}
      {proxy : State}
      (he : (∃ keepAlive, e = .finish c keepAlive ∧ phase.finish i = some events) ∨ e = .hangUp c)
      (hconn : s.conns[c]? = some (.serving i)) (hphase : s.proxy.requests[i]? = some phase)
      (hends : phase.hangUp i = some events) (hproxy : s.proxy.run events = some proxy) :
      Steps s e { s with conns := s.conns.set c conn, proxy }
  | close {e : FrontEvent} {c : ℕ} (he : e = .close c ∨ e = .hangUp c)
      (hconn : s.conns[c]? = some .waiting) :
      Steps s e { s with conns := s.conns.set c .ended }
  | drained {since : ℕ} (hloop : s.loop = .draining since)
      (hended : ∀ conn ∈ s.conns, conn = .ended) :
      Steps s .drained { s with loop := .returned since true }
  | timedOut {since : ℕ} (hloop : s.loop = .draining since) (hlate : since + drainTimeout ≤ s.clock)
      (hopen : ¬∀ conn ∈ s.conns, conn = .ended) :
      Steps s .timedOut { s with loop := .returned since false }

theorem release_eq {conn : Conn} {ends : ℕ → Phase → Option (List Event)}
    (hs : s.release c conn ends = some s') :
    ∃ i phase events proxy, s.conns[c]? = some (.serving i) ∧
      s.proxy.requests[i]? = some phase ∧ ends i phase = some events ∧
      s.proxy.run events = some proxy ∧
      s' = { s with conns := s.conns.set c conn, proxy } := by
  unfold release at hs
  split at hs
  · rename_i i hconn
    obtain ⟨phase, hphase, hs⟩ := Option.bind_eq_some_iff.mp hs
    obtain ⟨events, hends, hs⟩ := Option.bind_eq_some_iff.mp hs
    obtain ⟨proxy, hproxy, rfl⟩ := Option.map_eq_some_iff.mp hs
    exact ⟨i, phase, events, proxy, hconn, hphase, hends, hproxy, rfl⟩
  · cases hs

theorem next_of_step {e : FrontEvent} (hs : s.step e = some s') :
    (∀ since clean, s.loop ≠ .returned since clean) ∧ s.next e = some s' := by
  unfold step at hs
  split at hs
  · cases hs
  · rename_i hlive
    exact ⟨hlive, hs⟩

theorem steps_of_step {e : FrontEvent} (hs : s.step e = some s') : s.Steps e s' := by
  replace hs := (next_of_step hs).2
  cases e with
  | tick ms =>
    obtain rfl : _ = s' := Option.some.inj hs
    exact .tick ms
  | signal =>
    obtain rfl : _ = s' := Option.some.inj hs
    exact .signal
  | accept ok =>
    obtain ⟨⟨hloop, hshutdown⟩, hs⟩ := Option.ite_none_right_eq_some.mp hs
    obtain rfl : _ = s' := Option.some.inj hs
    cases ok with
    | true => exact .accept hshutdown hloop
    | false => exact .refused hshutdown
  | observe =>
    obtain ⟨⟨-, hshutdown⟩, hs⟩ := Option.ite_none_right_eq_some.mp hs
    obtain rfl : _ = s' := Option.some.inj hs
    exact .observe hshutdown
  | request c req clock now =>
    obtain ⟨hconn, hs⟩ := Option.ite_none_right_eq_some.mp hs
    obtain rfl : _ = s' := Option.some.inj hs
    exact .request hconn
  | handler e =>
    obtain ⟨hhandler, hs⟩ := Option.ite_none_right_eq_some.mp hs
    obtain ⟨proxy, hproxy, rfl⟩ := Option.map_eq_some_iff.mp hs
    exact .handler hhandler hproxy
  | finish c keepAlive =>
    obtain ⟨i, phase, events, proxy, hconn, hphase, hends, hproxy, rfl⟩ := release_eq hs
    exact .release (.inl ⟨keepAlive, rfl, hends⟩) hconn hphase (Phase.hangUp_of_finish hends) hproxy
  | hangUp c =>
    simp only [next] at hs
    split at hs
    · rename_i hconn
      obtain rfl : _ = s' := Option.some.inj hs
      exact .close (.inr rfl) hconn
    · obtain ⟨i, phase, events, proxy, hconn, hphase, hends, hproxy, rfl⟩ := release_eq hs
      exact .release (.inr rfl) hconn hphase hends hproxy
  | close c =>
    obtain ⟨⟨-, hconn⟩, hs⟩ := Option.ite_none_right_eq_some.mp hs
    obtain rfl : _ = s' := Option.some.inj hs
    exact .close (.inl rfl) hconn
  | drained =>
    simp only [next] at hs
    split at hs
    · obtain ⟨hended, hs⟩ := Option.ite_none_right_eq_some.mp hs
      obtain rfl : _ = s' := Option.some.inj hs
      exact .drained ‹_› hended
    · cases hs
  | timedOut =>
    simp only [next] at hs
    split at hs
    · obtain ⟨⟨hlate, hopen⟩, hs⟩ := Option.ite_none_right_eq_some.mp hs
      obtain rfl : _ = s' := Option.some.inj hs
      exact .timedOut ‹_› hlate hopen
    · cases hs

/-! ### Where the requests are -/

/-- The counters are balanced, and an unsettled request has an open connection. -/
structure Kept (s : Front) : Prop where
  balanced : Balanced s.proxy
  served : ∀ i, s.proxy.Unsettled i → .serving i ∈ s.conns

theorem Kept.of_init (cfg : Config) (created : ℕ → Instant) (seed : BitVec 64) :
    (init cfg created seed).Kept where
  balanced := balanced_init cfg created seed
  served := by
    rintro i ⟨phase, hi, -⟩
    cases hi

/-- A connection changes that does not serve the request. -/
theorem mem_set_of_ne {conn old : Conn} {conns : List Conn} {i : ℕ} (hold : conns[c]? = some old)
    (hne : old ≠ .serving i) (hmem : .serving i ∈ conns) : .serving i ∈ conns.set c conn := by
  obtain ⟨c', hc'⟩ := List.mem_iff_getElem?.mp hmem
  refine List.mem_iff_getElem?.mpr ⟨c', ?_⟩
  rw [List.getElem?_set_ne, hc']
  rintro rfl
  rw [hold] at hc'
  exact hne (Option.some.inj hc')

/-- **The step lemma.** -/
theorem Kept.step {e : FrontEvent} (h : s.Kept) (hs : s.step e = some s') : s'.Kept := by
  cases steps_of_step hs with
  | tick | signal | refused | observe | drained | timedOut => exact ⟨h.balanced, h.served⟩
  | accept =>
    exact ⟨h.balanced, fun i hi => List.mem_append_left _ (h.served i hi)⟩
  | request hconn =>
    refine ⟨balanced_arrive h.balanced _ _ _, fun i hi => ?_⟩
    obtain rfl | hi := hi.of_arrive
    · obtain ⟨hlt, -⟩ := List.getElem?_eq_some_iff.mp hconn
      exact List.mem_of_getElem? (List.getElem?_set_self hlt)
    · exact mem_set_of_ne hconn nofun (h.served i hi)
  | handler hhandler hproxy =>
    exact ⟨balanced_step h.balanced hproxy, fun i hi => h.served i (hi.of_handler hproxy hhandler)⟩
  | release _ hconn hphase hends hproxy =>
    refine ⟨?_, fun j hj => ?_⟩
    · exact State.run_induction hproxy h.balanced fun _ _ _ _ he h => balanced_step h he
    · -- the connection gives up its own request, which is settled
      obtain ⟨hne, hj⟩ := hj.of_hangUp hphase hends hproxy
      refine mem_set_of_ne hconn ?_ (h.served j hj)
      intro heq
      exact hne (Conn.serving.inj heq).symm
  | close _ hconn =>
    exact ⟨h.balanced, fun i hi => mem_set_of_ne hconn nofun (h.served i hi)⟩

/-- Without open connections no request is unsettled. -/
theorem Kept.settled (h : s.Kept) (hended : ∀ conn ∈ s.conns, conn = .ended) {phase : Phase}
    (hphase : phase ∈ s.proxy.requests) : phase.settled = true := by
  by_contra hunsettled
  obtain ⟨i, hi⟩ := List.mem_iff_getElem?.mp hphase
  cases hended _ (h.served i ⟨phase, hi, by simpa using hunsettled⟩)

/-- Nobody has hung up on a handler. -/
theorem noneAbandoned_step {e : FrontEvent} (h : NoneAbandoned s.proxy) (hs : s.step e = some s')
    (he : ∀ c, e ≠ .hangUp c) : NoneAbandoned s'.proxy := by
  cases steps_of_step hs with
  | request =>
    exact LbProxy.noneAbandoned_step (e := .arrive _ _ _) h rfl nofun
  | handler hhandler hproxy =>
    refine LbProxy.noneAbandoned_step h hproxy ?_
    rintro i rfl
    cases hhandler
  | @release _ _ _ _ phase _ _ hend _ _ _ hproxy =>
    obtain ⟨keepAlive, -, hfinish⟩ | hhangUp := hend
    · refine State.run_induction hproxy h fun _ _ e he hs h => ?_
      refine LbProxy.noneAbandoned_step h hs ?_
      rintro i rfl
      cases phase with
      | answered _ | streaming _ _ _ =>
        obtain rfl := Option.some.inj hfinish
        simp at he
      | _ => cases hfinish
    · exact absurd hhangUp (he _)
  | _ => exact h

/-! ### When it returns -/

/-- The time that has passed in a run. -/
def elapsed : List FrontEvent → ℕ
  | [] => 0
  | .tick ms :: es => ms + elapsed es
  | _ :: es => elapsed es

theorem elapsed_append (es es' : List FrontEvent) :
    elapsed (es ++ es') = elapsed es + elapsed es' := by
  induction es with
  | nil => simp [elapsed]
  | cons e es ih => cases e <;> simp only [elapsed, List.cons_append, ih, Nat.add_assoc]

end Front

/-- Since when the loop has not been accepting. -/
def RunUntil.since : RunUntil → Option ℕ
  | accepting => none
  | draining since | returned since _ => some since

namespace Front

variable {s s' : Front}

/-- The state of the loop after the events `past`. -/
structure Timed (past : List FrontEvent) (s : Front) : Prop where
  clock : s.clock = elapsed past
  shutdown : s.shutdown = true ↔ .signal ∈ past
  deaf : ∀ es₁ es₂ ok, past = es₁ ++ .signal :: es₂ → .accept ok ∉ es₂
  observed : ∀ since, s.loop.since = some since →
    ∃ es₁ es₂, past = es₁ ++ .observe :: es₂ ∧ elapsed es₁ = since
  verdict : ∀ since clean, s.loop = .returned since clean →
    (clean = true ↔ ∀ conn ∈ s.conns, conn = .ended) ∧
      (clean = false → since + drainTimeout ≤ s.clock)

theorem Timed.of_init (cfg : Config) (created : ℕ → Instant) (seed : BitVec 64) :
    Timed [] (init cfg created seed) where
  clock := rfl
  shutdown := by simp [Front.init]
  deaf es₁ es₂ ok h := by simp at h
  observed since h := by cases h
  verdict since clean h := by cases h

variable {past : List FrontEvent} {e : FrontEvent}

/-- No connection is accepted after the signal. -/
theorem Timed.deaf_step (h : Timed past s) (hs : s.step e = some s') (es₁ es₂ : List FrontEvent)
    (ok : Bool) (heq : past ++ [e] = es₁ ++ .signal :: es₂) : .accept ok ∉ es₂ := by
  obtain rfl | ⟨es₂, e', rfl⟩ := es₂.eq_nil_or_concat'
  · exact List.not_mem_nil
  rw [← List.cons_append, ← List.append_assoc] at heq
  obtain ⟨hpast, hlast⟩ := List.append_inj' heq rfl
  obtain rfl : e = e' := List.head_eq_of_cons_eq hlast
  intro hmem
  obtain hmem | hmem := List.mem_append.mp hmem
  · exact h.deaf es₁ es₂ ok hpast hmem
  obtain rfl := List.mem_singleton.mp hmem
  have hsignal : s.shutdown = true := h.shutdown.mpr (by simp [hpast])
  cases steps_of_step hs with
  | accept hshutdown | refused hshutdown =>
    rw [hsignal] at hshutdown
    cases hshutdown
  | release he => obtain ⟨_, he, -⟩ | he := he <;> cases he
  | close he => obtain he | he := he <;> cases he

/-- What the step does to the loop. -/
theorem since_step (hs : s.step e = some s') :
    s'.loop.since = s.loop.since ∨ e = .observe ∧ s'.loop.since = some s.clock := by
  cases steps_of_step hs with
  | observe => exact .inr ⟨rfl, rfl⟩
  | drained hloop | timedOut hloop =>
    left
    rw [hloop]
    rfl
  | _ => exact .inl rfl

theorem Timed.step (h : Timed past s) (hs : s.step e = some s') : Timed (past ++ [e]) s' where
  clock := by
    rw [elapsed_append, ← h.clock]
    cases steps_of_step hs with
    | release he | close he =>
      obtain ⟨_, rfl, -⟩ | rfl := he <;> rfl
    | _ => rfl
  shutdown := by
    rw [List.mem_append, ← h.shutdown, List.mem_singleton]
    cases steps_of_step hs with
    | release he =>
      obtain ⟨_, rfl, -⟩ | rfl := he <;> simp
    | close he =>
      obtain rfl | rfl := he <;> simp
    | _ => simp
  deaf := h.deaf_step hs
  observed since hsince := by
    obtain heq | ⟨rfl, heq⟩ := since_step hs
    · obtain ⟨es₁, es₂, rfl, hes₁⟩ := h.observed since (heq ▸ hsince)
      exact ⟨es₁, es₂ ++ [e], by simp, hes₁⟩
    · rw [heq] at hsince
      exact ⟨past, [], rfl, h.clock ▸ Option.some.inj hsince⟩
  verdict since clean hreturned := by
    have hlive := (next_of_step hs).1
    cases steps_of_step hs with
    | drained hloop hended =>
      cases hreturned
      exact ⟨iff_of_true rfl hended, nofun⟩
    | timedOut hloop hlate hopen =>
      cases hreturned
      exact ⟨iff_of_false nofun hopen, fun _ => hlate⟩
    | observe => cases hreturned
    | _ => exact absurd hreturned (hlive since clean)

/-! ### Runs -/

section Runs

variable {cfg : Config} {created : ℕ → Instant} {seed : BitVec 64} {es : List FrontEvent}

theorem Kept.of_run (hrun : (init cfg created seed).run es = some s) : s.Kept :=
  Runs.foldlM_induction hrun (.of_init cfg created seed) fun _ _ _ _ hs h => h.step hs

theorem Timed.of_run (hrun : (init cfg created seed).run es = some s) : Timed es s :=
  Runs.foldlM_history hrun (.of_init cfg created seed) fun _ _ _ _ hs h => h.step hs

theorem noneAbandoned_of_run (hrun : (init cfg created seed).run es = some s)
    (hstay : ∀ c, .hangUp c ∉ es) : NoneAbandoned s.proxy := by
  refine Runs.foldlM_induction (I := fun s => NoneAbandoned s.proxy) hrun ?_ ?_
  · intro phase hphase
    exact absurd hphase List.not_mem_nil
  · intro s s' e he hs h
    refine noneAbandoned_step h hs ?_
    rintro c rfl
    exact hstay c he

/-- No request is left, and a backend is held for those only whose client has hung up on the
handler. -/
structure Quiet (st : State) : Prop where
  settled : ∀ phase ∈ st.requests, phase.settled = true
  inFlight : ∀ sid health, st.proxy.registry.lookup sid = some health →
    health.inFlight = BitVec.ofNat 64 (st.requests.countP (Phase.isAbandoned sid))

theorem Kept.quiet (h : s.Kept) (hended : ∀ conn ∈ s.conns, conn = .ended) : Quiet s.proxy where
  settled _ hphase := h.settled hended hphase
  inFlight sid health hhealth := by
    have hcounter := h.balanced sid health.inFlight (by
      rw [ProxyState.inFlightOf, hhealth, Option.map_some])
    rw [hcounter, State.occupied]
    congr 1
    refine List.countP_congr fun phase hphase => ?_
    rw [Phase.occupies, Phase.not_isHeld (h.settled hended hphase), Bool.false_or]

/-- **What the return of `run_until` says.** In no run is a connection accepted after the shutdown.
`run_until` returns cleanly exactly when every connection has ended, and then every request is
settled; the counter of a backend shows the handlers that were dropped at their await, and zero if
no client has hung up. Otherwise the timeout has passed since the shutdown was seen. -/
theorem drained_of_run (hrun : (init cfg created seed).run es = some s) :
    (∀ es₁ es₂ ok, es = es₁ ++ .signal :: es₂ → .accept ok ∉ es₂) ∧
      ∀ since clean, s.loop = .returned since clean →
        (∃ es₁ es₂, es = es₁ ++ .observe :: es₂ ∧ elapsed es₁ = since) ∧
        (clean = true ↔ ∀ conn ∈ s.conns, conn = .ended) ∧
        (clean = true → Quiet s.proxy ∧ ((∀ c, .hangUp c ∉ es) →
          ∀ sid health, s.proxy.proxy.registry.lookup sid = some health → health.inFlight = 0)) ∧
        (clean = false → since + drainTimeout ≤ elapsed es) := by
  have htimed := Timed.of_run hrun
  refine ⟨htimed.deaf, fun since clean hreturned => ?_⟩
  obtain ⟨hclean, hlate⟩ := htimed.verdict since clean hreturned
  refine ⟨htimed.observed since (by rw [hreturned]; rfl), hclean, ?_, ?_⟩
  · intro h
    have hquiet := (Kept.of_run hrun).quiet (hclean.mp h)
    refine ⟨hquiet, fun hstay sid health hhealth => ?_⟩
    have hnone := noneAbandoned_of_run hrun hstay
    rw [hquiet.inFlight sid health hhealth, List.countP_eq_zero.mpr]
    · rfl
    · intro phase hphase
      rw [hnone phase hphase sid]
      exact Bool.false_ne_true
  · intro h
    rw [← htimed.clock]
    exact hlate h

/-- A request is in flight when the proxy is told to stop. -/
def stopped : List FrontEvent :=
  [.accept true, .request 0 ⟨"GET", "/ping"⟩ (fun _ => 0) 0, .handler (.build 0 .built), .tick 5,
    .signal, .observe, .handler (.respond 0 (.ok 200) 7 7), .tick 7, .finish 0 false, .drained]

theorem run_stopped : ∃ s, (init oneBackend (fun i => i) 1).run stopped = some s ∧
    s.loop = .returned 5 true := by
  obtain ⟨proxy, _, harrive, -⟩ := arrive_ping
  have hrequest : ((init oneBackend (fun i => i) 1).run (stopped.take 2)) =
      some ⟨.accepting, false, 0, [.serving 0], ⟨proxy, [.dispatched ⟨0⟩]⟩⟩ :=
    congrArg (fun st => some (⟨.accepting, false, 0, [.serving 0], st⟩ : Front)) harrive
  refine ⟨⟨.returned 5 true, true, 12, [.ended], ⟨State.onDone
    (proxy.recordBackendHealth ⟨0⟩ 200 7 7) ⟨0⟩ true, [.closed 200]⟩⟩, ?_, rfl⟩
  unfold run at hrequest ⊢
  rw [← List.take_append_drop 2 stopped, List.foldlM_append, hrequest]
  rfl

/-- Its request has been answered before the proxy has returned. -/
theorem drained_of_run_stopped : ∃ s, (init oneBackend (fun i => i) 1).run stopped = some s ∧
    s.loop = .returned 5 true ∧
    (∀ es₁ es₂ ok, stopped = es₁ ++ .signal :: es₂ → .accept ok ∉ es₂) ∧
      ∀ since clean, s.loop = .returned since clean →
        (∃ es₁ es₂, stopped = es₁ ++ .observe :: es₂ ∧ elapsed es₁ = since) ∧
        (clean = true ↔ ∀ conn ∈ s.conns, conn = .ended) ∧
        (clean = true → Quiet s.proxy ∧ ((∀ c, .hangUp c ∉ stopped) →
          ∀ sid health, s.proxy.proxy.registry.lookup sid = some health → health.inFlight = 0)) ∧
        (clean = false → since + drainTimeout ≤ elapsed stopped) := by
  obtain ⟨s, hrun, hreturned⟩ := run_stopped
  exact ⟨s, hrun, hreturned, drained_of_run hrun⟩

end Runs

end Front

end ScalableBooking.LbProxy
