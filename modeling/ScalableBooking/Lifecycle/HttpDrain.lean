import ScalableBooking.Lib.Runs

/-!
# Draining the HTTP server

`makeDefaultShutdownDeps` of `shutdown.ts`: `closeServer` and the reaper of `drainReaperFor`. The
server of Node keeps a connection open after a response, until its client or a timeout ends it, and
the promise of `close` resolves when no connection is left. `closeIdleConnections` ends those that
wait for a request. `close` calls it only once, and a request that is then in flight leaves an idle
connection behind. The reaper calls it again after each response that finishes during the drain.

A connection takes its requests in parts, and the next one may come before the last one has been
answered. The responses finish in the order of the requests. A response can also finish before its
request has come to its end.

The reaper listens to a response only when it has been attached before the request comes. Then
`close` waits for what is in flight, and for a connection whose last request came to its end after
its response, until the next response finishes. It waits for nothing else, and no response is cut
off that its handler has not ended (`drained_iff_of_run`).

Connections that have been upgraded to web sockets are not here.
-/

namespace ScalableBooking.Lifecycle

/-- What the documentation of `closeIdleConnections` leaves open: whether it ends a connection on
which nothing has come yet, and one whose response has been ended and not been sent. -/
structure Node where
  reapsFresh : Bool
  reapsEnded : Bool
deriving DecidableEq, Repr

/-! ### A connection -/

/-- Nothing has come on a connection, or the head or the body of a request is coming, or the last
request has come to its end. -/
inductive Parser where
  | fresh
  | head
  | body
  | received
deriving DecidableEq, Repr

def Parser.quiet (node : Node) : Parser → Bool
  | fresh => node.reapsFresh
  | head | body => false
  | received => true

/-- The reaper listens to a response that is `watched`. Its handler runs until it has been
`ended`. -/
structure Response where
  watched : Bool
  ended : Bool
deriving DecidableEq, Repr

/-- A connection with the responses that have not finished, in the order of their requests. They
stay when it ends, as their handlers run on. -/
structure Conn where
  live : Bool
  parser : Parser
  outgoing : List Response
deriving DecidableEq, Repr

/-- What happens on a connection. `receive` is the first byte of a request. `request` and `finish`
are the events of these names, `finish` with whether the connection is kept alive. A connection
also ends from outside (`hangUp`). -/
inductive ConnEvent where
  | receive
  | request
  | received
  | ended (i : ℕ)
  | finish (i : ℕ) (keepAlive : Bool)
  | hangUp
deriving DecidableEq, Repr

namespace Conn

def accepted : Conn := ⟨true, .fresh, []⟩

/-- What `closeIdleConnections` ends. -/
def idle (node : Node) (conn : Conn) : Bool :=
  conn.parser.quiet node && conn.outgoing.head?.all fun res => node.reapsEnded && res.ended

def reap (node : Node) (conn : Conn) : Conn :=
  { conn with live := conn.live && !conn.idle node }

/-- Nothing is in flight on it. -/
def waiting (node : Node) (conn : Conn) : Bool :=
  conn.parser.quiet node && conn.outgoing.isEmpty

/-- One step, if the event can happen. -/
def step (attached : Bool) (conn : Conn) : ConnEvent → Option Conn
  | .receive =>
      if conn.live && (conn.parser = .fresh || conn.parser = .received) then
        some { conn with parser := .head }
      else none
  | .request =>
      if conn.live && conn.parser = .head then
        some { conn with parser := .body, outgoing := conn.outgoing ++ [⟨attached, false⟩] }
      else none
  | .received =>
      if conn.live && conn.parser = .body then some { conn with parser := .received } else none
  | .ended i =>
      match conn.outgoing[i]? with
      | some ⟨watched, false⟩ => some { conn with outgoing := conn.outgoing.set i ⟨watched, true⟩ }
      | _ => none
  | .finish i keepAlive =>
      match conn.outgoing[i]? with
      | some ⟨_, true⟩ =>
          -- on a connection that has ended the order is lost
          if i = 0 || !conn.live then
            some { conn with
              live := conn.live && keepAlive
              outgoing := conn.outgoing.eraseIdx i }
          else none
      | _ => none
  | .hangUp => if conn.live then some { conn with live := false } else none

/-- The event runs a listener of the reaper. -/
def listened (conn : Conn) : ConnEvent → Bool
  | .finish i _ => conn.outgoing[i]?.any Response.watched
  | _ => false

variable {node : Node} {attached : Bool} {conn conn' : Conn} {res : Response} {e : ConnEvent}

theorem idle_of_waiting (h : conn.waiting node = true) : conn.idle node = true := by
  obtain ⟨hquiet, hempty⟩ := Bool.and_eq_true_iff.mp h
  unfold idle
  rw [hquiet, List.isEmpty_iff.mp hempty]
  rfl

/-- `closeIdleConnections` leaves no connection behind that waits. -/
theorem not_waiting_reap (hlive : (conn.reap node).live = true) :
    (conn.reap node).waiting node = false := by
  obtain ⟨-, hidle⟩ := Bool.and_eq_true_iff.mp hlive
  rw [Bool.eq_false_iff]
  intro hwaiting
  rw [show conn.idle node = true from idle_of_waiting hwaiting] at hidle
  cases hidle

theorem live_reap (hlive : conn.live = true) (hres : conn.outgoing.head? = some res)
    (hended : res.ended = false) : (conn.reap node).live = true := by
  unfold reap idle
  rw [hlive, hres, Option.all_some, hended]
  simp

/-- The steps, one by one. -/
inductive Steps (attached : Bool) (conn : Conn) : ConnEvent → Conn → Prop
  | receive (hlive : conn.live = true) :
      Steps attached conn .receive { conn with parser := .head }
  | request (hlive : conn.live = true) :
      Steps attached conn .request
        { conn with parser := .body, outgoing := conn.outgoing ++ [⟨attached, false⟩] }
  | received (hlive : conn.live = true) :
      Steps attached conn .received { conn with parser := .received }
  | ended {i : ℕ} {watched : Bool} (hres : conn.outgoing[i]? = some ⟨watched, false⟩) :
      Steps attached conn (.ended i)
        { conn with outgoing := conn.outgoing.set i ⟨watched, true⟩ }
  | finish {i : ℕ} {watched keepAlive : Bool} (hres : conn.outgoing[i]? = some ⟨watched, true⟩)
      (hfirst : i = 0 ∨ conn.live = false) :
      Steps attached conn (.finish i keepAlive)
        { conn with live := conn.live && keepAlive, outgoing := conn.outgoing.eraseIdx i }
  | hangUp (hlive : conn.live = true) : Steps attached conn .hangUp { conn with live := false }

theorem steps_of_step (hs : conn.step attached e = some conn') : Steps attached conn e conn' := by
  cases e with
  | receive =>
    obtain ⟨hguard, hs⟩ := Option.ite_none_right_eq_some.mp hs
    obtain rfl : _ = conn' := Option.some.inj hs
    exact .receive (Bool.and_eq_true_iff.mp hguard).1
  | request =>
    obtain ⟨hguard, hs⟩ := Option.ite_none_right_eq_some.mp hs
    obtain rfl : _ = conn' := Option.some.inj hs
    exact .request (Bool.and_eq_true_iff.mp hguard).1
  | received =>
    obtain ⟨hguard, hs⟩ := Option.ite_none_right_eq_some.mp hs
    obtain rfl : _ = conn' := Option.some.inj hs
    exact .received (Bool.and_eq_true_iff.mp hguard).1
  | ended i =>
    simp only [step] at hs
    split at hs
    · obtain rfl : _ = conn' := Option.some.inj hs
      exact .ended ‹_›
    · cases hs
  | finish i keepAlive =>
    simp only [step] at hs
    split at hs
    · obtain ⟨hfirst, hs⟩ := Option.ite_none_right_eq_some.mp hs
      obtain rfl : _ = conn' := Option.some.inj hs
      exact .finish ‹_› (by simpa using hfirst)
    · cases hs
  | hangUp =>
    obtain ⟨hlive, hs⟩ := Option.ite_none_right_eq_some.mp hs
    obtain rfl : _ = conn' := Option.some.inj hs
    exact .hangUp hlive

/-- A connection that has ended does not come back. -/
theorem ended_step (hs : conn.step attached e = some conn') (hended : conn.live = false) :
    conn'.live = false := by
  cases steps_of_step hs with
  | finish => simp [hended]
  | hangUp => rfl
  | _ => exact hended

theorem watched_step (hs : conn.step attached e = some conn')
    (hwatched : ∀ res ∈ conn.outgoing, res.watched = true)
    (hattached : e = .request → attached = true) :
    ∀ res ∈ conn'.outgoing, res.watched = true := by
  cases steps_of_step hs with
  | request =>
    intro res hmem
    obtain hmem | hmem := List.mem_append.mp hmem
    · exact hwatched res hmem
    · rw [List.mem_singleton.mp hmem]
      exact hattached rfl
  | ended hres =>
    intro res hmem
    obtain hmem | rfl := List.mem_or_eq_of_mem_set hmem
    · exact hwatched res hmem
    · exact hwatched ⟨_, false⟩ (List.mem_of_getElem? hres)
  | finish =>
    intro res hmem
    exact hwatched res (List.mem_of_mem_eraseIdx hmem)
  | _ => exact hwatched

/-- A connection waits after a request has come to its end or a response has finished. -/
theorem waiting_step (hs : conn.step attached e = some conn') (hlive : conn'.live = true)
    (hwaiting : conn'.waiting node = true) :
    e = .received ∨ ∃ i keepAlive, e = .finish i keepAlive := by
  obtain ⟨hquiet, hempty⟩ := Bool.and_eq_true_iff.mp hwaiting
  cases steps_of_step hs with
  | receive => cases hquiet
  | request => cases hquiet
  | received => exact .inl rfl
  | @ended i _ hres =>
    have hnil : conn.outgoing = [] := by
      simpa [List.isEmpty_iff] using hempty
    rw [hnil] at hres
    cases hres
  | finish => exact .inr ⟨_, _, rfl⟩
  | hangUp => cases hlive

/-- A response that its handler has not ended stays the next one. -/
theorem head_step (hs : conn.step attached e = some conn') (hlive : conn.live = true)
    (hres : conn.outgoing.head? = some res) (hended : res.ended = false) (he : e ≠ .ended 0)
    (hhangUp : e ≠ .hangUp) : conn'.live = true ∧ conn'.outgoing.head? = some res := by
  have hzero : conn.outgoing[0]? = some res := by
    rw [← List.head?_eq_getElem?, hres]
  cases steps_of_step hs with
  | receive => exact ⟨hlive, hres⟩
  | request => exact ⟨hlive, by simp [hres]⟩
  | received => exact ⟨hlive, hres⟩
  | @ended i =>
    refine ⟨hlive, ?_⟩
    have hi : i ≠ 0 := fun h => he (h ▸ rfl)
    rw [List.head?_eq_getElem?, List.getElem?_set_ne hi, hzero]
  | finish hfinish hfirst =>
    obtain rfl : _ = 0 := hfirst.resolve_right (by simp [hlive])
    rw [hzero] at hfinish
    cases hfinish
    cases hended
  | hangUp => exact absurd rfl hhangUp

end Conn

/-! ### The server -/

/-- The server. `attached` and `draining` belong to the reaper. `app.close` has been called when
`closing` holds, and `server.close` when `closed` does. The connections are in the order in which
they have been accepted. -/
structure Server where
  listening : Bool
  attached : Bool
  draining : Bool
  closing : Bool
  closed : Bool
  conns : List Conn
deriving DecidableEq, Repr

/-- What happens to the server. `preClosed` is when Fastify gets to `server.close`. -/
inductive HttpEvent where
  | makeDefaultShutdownDeps
  | listen
  | accept
  | conn (c : ℕ) (e : ConnEvent)
  | closeServer
  | preClosed
deriving DecidableEq, Repr

namespace Server

def start : Server := ⟨false, false, false, false, false, []⟩

/-- A connection changes. -/
def set (s : Server) (c : ℕ) (conn : Conn) : Server :=
  { s with conns := s.conns.set c conn }

def closeIdleConnections (node : Node) (s : Server) : Server :=
  { s with conns := s.conns.map (Conn.reap node) }

/-- The promise of `close` resolves. -/
def Drained (s : Server) : Prop := s.closed = true ∧ ∀ conn ∈ s.conns, conn.live = false

instance (s : Server) : Decidable s.Drained := inferInstanceAs (Decidable (_ ∧ _))

/-- One step, if the event can happen. -/
def step (node : Node) (s : Server) : HttpEvent → Option Server
  | .makeDefaultShutdownDeps => some { s with attached := true }
  | .listen => if s.closed then none else some { s with listening := true }
  | .accept =>
      if s.listening then some { s with conns := s.conns ++ [.accepted] } else none
  | .conn c e =>
      match s.conns[c]? with
      | some conn =>
          (conn.step s.attached e).map fun conn' =>
            if conn.listened e && s.draining then (s.set c conn').closeIdleConnections node
            else s.set c conn'
      | none => none
  | .closeServer =>
      if s.attached && !s.closing then
        some (closeIdleConnections node { s with draining := true, closing := true })
      else none
  | .preClosed =>
      if s.closing && !s.closed then
        some (closeIdleConnections node { s with listening := false, closed := true })
      else none

def run (node : Node) (s : Server) (es : List HttpEvent) : Option Server :=
  es.foldlM (step node) s

/-! ### What a step does to the connections -/

section Step

variable {node : Node} {s s' : Server} {c : ℕ} {conn : Conn} {res : Response} {e : HttpEvent}

/-- The steps, one by one. -/
inductive Steps (node : Node) (s : Server) : HttpEvent → Server → Prop
  | makeDefaultShutdownDeps : Steps node s .makeDefaultShutdownDeps { s with attached := true }
  | listen (hclosed : s.closed = false) : Steps node s .listen { s with listening := true }
  | accept (hlistening : s.listening = true) :
      Steps node s .accept { s with conns := s.conns ++ [.accepted] }
  | reaped {c : ℕ} {conn conn' : Conn} {e : ConnEvent} (hconn : s.conns[c]? = some conn)
      (hstep : conn.step s.attached e = some conn') :
      Steps node s (.conn c e) ((s.set c conn').closeIdleConnections node)
  | conn {c : ℕ} {conn conn' : Conn} {e : ConnEvent} (hconn : s.conns[c]? = some conn)
      (hstep : conn.step s.attached e = some conn')
      (hreaper : ¬(conn.listened e = true ∧ s.draining = true)) :
      Steps node s (.conn c e) (s.set c conn')
  | closeServer (hattached : s.attached = true) :
      Steps node s .closeServer
        (closeIdleConnections node { s with draining := true, closing := true })
  | preClosed (hclosing : s.closing = true) :
      Steps node s .preClosed
        (closeIdleConnections node { s with listening := false, closed := true })

theorem steps_of_step (hs : s.step node e = some s') : Steps node s e s' := by
  cases e with
  | makeDefaultShutdownDeps =>
    obtain rfl : _ = s' := Option.some.inj hs
    exact .makeDefaultShutdownDeps
  | listen =>
    obtain ⟨hclosed, hs⟩ := Option.ite_none_left_eq_some.mp hs
    obtain rfl : _ = s' := Option.some.inj hs
    exact .listen (Bool.eq_false_iff.mpr hclosed)
  | accept =>
    obtain ⟨hlistening, hs⟩ := Option.ite_none_right_eq_some.mp hs
    obtain rfl : _ = s' := Option.some.inj hs
    exact .accept hlistening
  | conn c e =>
    simp only [step] at hs
    split at hs
    · rename_i conn hconn
      obtain ⟨conn', hstep, hs⟩ := Option.map_eq_some_iff.mp hs
      by_cases hreaper : conn.listened e = true ∧ s.draining = true
      · rw [if_pos (by simpa using hreaper)] at hs
        subst hs
        exact .reaped hconn hstep
      · rw [if_neg (by simpa using hreaper)] at hs
        subst hs
        exact .conn hconn hstep hreaper
    · cases hs
  | closeServer =>
    obtain ⟨hguard, hs⟩ := Option.ite_none_right_eq_some.mp hs
    obtain rfl : _ = s' := Option.some.inj hs
    exact .closeServer (Bool.and_eq_true_iff.mp hguard).1
  | preClosed =>
    obtain ⟨hguard, hs⟩ := Option.ite_none_right_eq_some.mp hs
    obtain rfl : _ = s' := Option.some.inj hs
    exact .preClosed (Bool.and_eq_true_iff.mp hguard).1

theorem getElem?_closeIdleConnections :
    (s.closeIdleConnections node).conns[c]? = s.conns[c]?.map (Conn.reap node) :=
  List.getElem?_map

/-- A connection after another or itself has changed. -/
theorem getElem?_set {c' : ℕ} {conn' : Conn} (hconn : s.conns[c']? = some conn) :
    (s.set c' conn').conns[c]? = if c' = c then some conn' else s.conns[c]? := by
  obtain ⟨hlt, -⟩ := List.getElem?_eq_some_iff.mp hconn
  unfold set
  rw [List.getElem?_set]
  split
  · rfl
  · rfl

theorem attached_step (hs : s.step node e = some s') :
    s'.attached = true ↔ s.attached = true ∨ e = .makeDefaultShutdownDeps := by
  cases steps_of_step hs <;> simp [set, closeIdleConnections]

theorem closing_step (hs : s.step node e = some s') (he : e ≠ .closeServer) :
    s'.closing = s.closing := by
  cases steps_of_step hs with
  | closeServer => exact absurd rfl he
  | _ => rfl

/-- No connection is accepted after `server.close`. -/
def Deaf (s : Server) : Prop := s.closed = true → s.listening = false

theorem Deaf.step (h : s.Deaf) (hs : s.step node e = some s') : s'.Deaf := by
  cases steps_of_step hs with
  | listen hclosed =>
    intro hclosed'
    rw [show s.closed = true from hclosed'] at hclosed
    cases hclosed
  | preClosed => exact fun _ => rfl
  | _ => exact h

/-- Then a server that has been drained stays so. -/
theorem Deaf.drained_step (h : s.Deaf) (hdrained : s.Drained) (hs : s.step node e = some s') :
    s'.Drained := by
  obtain ⟨hclosed, hended⟩ := hdrained
  have hset : ∀ {c conn conn' e}, s.conns[c]? = some conn →
      conn.step s.attached e = some conn' → ∀ conn ∈ (s.set c conn').conns, conn.live = false := by
    intro c conn conn' e hconn hs o ho
    obtain ho | rfl := List.mem_or_eq_of_mem_set ho
    · exact hended o ho
    · exact Conn.ended_step hs (hended conn (List.mem_of_getElem? hconn))
  have hreap : ∀ {s : Server}, (∀ conn ∈ s.conns, conn.live = false) →
      ∀ conn ∈ (s.closeIdleConnections node).conns, conn.live = false := by
    intro s hended o ho
    obtain ⟨conn, hmem, rfl⟩ := List.mem_map.mp ho
    unfold Conn.reap
    rw [hended conn hmem, Bool.false_and]
  cases steps_of_step hs with
  | makeDefaultShutdownDeps => exact ⟨hclosed, hended⟩
  | listen => exact ⟨hclosed, hended⟩
  | accept hlistening =>
    rw [h hclosed] at hlistening
    cases hlistening
  | reaped hconn hstep => exact ⟨hclosed, hreap (hset hconn hstep)⟩
  | conn hconn hstep => exact ⟨hclosed, hset hconn hstep⟩
  | closeServer => exact ⟨hclosed, hreap hended⟩
  | preClosed => exact ⟨rfl, hreap hended⟩

/-- The next response on a connection has not been ended by its handler. -/
def Awaited (s : Server) (c : ℕ) : Prop :=
  ∃ conn res, s.conns[c]? = some conn ∧ conn.live = true ∧ conn.outgoing.head? = some res ∧
    res.ended = false

/-- The connection stays open until it is, or the client or a timeout ends it. -/
theorem Awaited.step (h : s.Awaited c) (hs : s.step node e = some s')
    (hended : e ≠ .conn c (.ended 0)) (hhangUp : e ≠ .conn c .hangUp) : s'.Awaited c := by
  have hset : ∀ {c' conn conn' e}, s.conns[c']? = some conn →
      conn.step s.attached e = some conn' → HttpEvent.conn c' e ≠ .conn c (.ended 0) →
      HttpEvent.conn c' e ≠ .conn c .hangUp → (s.set c' conn').Awaited c := by
    intro c' conn₁ conn' e hconn₁ hs hended hhangUp
    obtain ⟨conn, res, hconn, hlive, hres, hopen⟩ := h
    by_cases hc : c' = c
    · subst hc
      obtain rfl : conn₁ = conn := by
        rw [hconn₁] at hconn
        exact Option.some.inj hconn
      obtain ⟨hlive', hres'⟩ := Conn.head_step hs hlive hres hopen
        (fun he => hended (he ▸ rfl)) (fun he => hhangUp (he ▸ rfl))
      exact ⟨conn', res, by rw [getElem?_set hconn₁, if_pos rfl], hlive', hres', hopen⟩
    · exact ⟨conn, res, by rw [getElem?_set hconn₁, if_neg hc, hconn], hlive, hres, hopen⟩
  have hreap : ∀ {s : Server}, s.Awaited c → (s.closeIdleConnections node).Awaited c := by
    rintro s ⟨conn, res, hconn, hlive, hres, hopen⟩
    refine ⟨conn.reap node, res, ?_, Conn.live_reap hlive hres hopen, hres, hopen⟩
    rw [getElem?_closeIdleConnections, hconn, Option.map_some]
  cases steps_of_step hs with
  | makeDefaultShutdownDeps => exact h
  | listen => exact h
  | accept =>
    obtain ⟨conn, res, hconn, h⟩ := h
    obtain ⟨hlt, -⟩ := List.getElem?_eq_some_iff.mp hconn
    exact ⟨conn, res, (List.getElem?_append_left hlt).trans hconn, h⟩
  | reaped hconn hstep => exact hreap (hset hconn hstep hended hhangUp)
  | conn hconn hstep => exact hset hconn hstep hended hhangUp
  | closeServer => exact hreap h
  | preClosed => exact hreap h

end Step

/-! ### What the reaper keeps -/

/-- A request on the connection has come to its end, and no response has finished since. -/
def LeftBehind (c : ℕ) (es : List HttpEvent) : Prop :=
  ∃ es₁ es₂, es = es₁ ++ .conn c .received :: es₂ ∧
    ∀ c' i keepAlive, .conn c' (.finish i keepAlive) ∉ es₂

theorem LeftBehind.append {c : ℕ} {es : List HttpEvent} {e : HttpEvent} (h : LeftBehind c es)
    (he : ∀ c' i keepAlive, e ≠ .conn c' (.finish i keepAlive)) : LeftBehind c (es ++ [e]) := by
  obtain ⟨es₁, es₂, rfl, hnone⟩ := h
  refine ⟨es₁, es₂ ++ [e], by simp, ?_⟩
  intro c' i keepAlive hmem
  obtain hmem | hmem := List.mem_append.mp hmem
  · exact hnone c' i keepAlive hmem
  · exact he c' i keepAlive (List.mem_singleton.mp hmem).symm

/-- Every response is watched, and once `server.close` has been called only a connection that has
been left behind waits. -/
structure Reaped (node : Node) (past : List HttpEvent) (s : Server) : Prop where
  attached : s.closing = true → s.attached = true
  watched : ∀ conn ∈ s.conns, ∀ res ∈ conn.outgoing, res.watched = true
  draining : s.closing = true → s.draining = true
  closing : s.closed = true → s.closing = true
  deaf : s.Deaf
  behind : s.closed = true → ∀ c conn, s.conns[c]? = some conn → conn.live = true →
    conn.waiting node = true → LeftBehind c past

namespace Reaped

variable {node : Node} {past : List HttpEvent} {s s' : Server} {e : HttpEvent}

theorem start : Reaped node [] start where
  attached := nofun
  watched _ hmem := absurd hmem List.not_mem_nil
  draining := nofun
  closing := nofun
  deaf := nofun
  behind := nofun

/-- After `closeIdleConnections` nothing waits. -/
theorem closeIdleConnections (hattached : s.closing = true → s.attached = true)
    (hwatched : ∀ conn ∈ s.conns, ∀ res ∈ conn.outgoing, res.watched = true)
    (hdraining : s.closing = true → s.draining = true)
    (hclosing : s.closed = true → s.closing = true) (hdeaf : s.Deaf) :
    Reaped node past (s.closeIdleConnections node) where
  attached := hattached
  watched _ hmem := by
    obtain ⟨conn, hconn, rfl⟩ := List.mem_map.mp hmem
    exact hwatched conn hconn
  draining := hdraining
  closing := hclosing
  deaf := hdeaf
  behind _ c conn hconn hlive hwaiting := by
    rw [getElem?_closeIdleConnections] at hconn
    obtain ⟨conn, -, rfl⟩ := Option.map_eq_some_iff.mp hconn
    rw [Conn.not_waiting_reap hlive] at hwaiting
    cases hwaiting

/-- **The step lemma.** -/
theorem step (h : Reaped node past s) (hs : s.step node e = some s')
    (hattached : ∀ c, e = .conn c .request → s.attached = true) :
    Reaped node (past ++ [e]) s' := by
  have hset : ∀ {c conn conn' e'}, e = .conn c e' → s.conns[c]? = some conn →
      conn.step s.attached e' = some conn' →
      ∀ conn ∈ (s.set c conn').conns, ∀ res ∈ conn.outgoing, res.watched = true := by
    rintro c conn conn' e' rfl hconn hs o ho
    obtain ho | rfl := List.mem_or_eq_of_mem_set ho
    · exact h.watched o ho
    · refine Conn.watched_step hs (h.watched conn (List.mem_of_getElem? hconn)) ?_
      rintro rfl
      exact hattached c rfl
  cases steps_of_step hs with
  | makeDefaultShutdownDeps =>
    refine ⟨fun _ => rfl, h.2, h.3, h.4, h.5, fun hclosed c conn hconn hlive hwaiting => ?_⟩
    exact (h.behind hclosed c conn hconn hlive hwaiting).append nofun
  | listen hclosed =>
    have hopen : s.closed ≠ true := by simp [hclosed]
    exact ⟨h.1, h.2, h.3, h.4, fun hc => absurd hc hopen, fun hc => absurd hc hopen⟩
  | accept hlistening =>
    have hopen : s.closed ≠ true := fun hclosed => by simp [h.deaf hclosed] at hlistening
    refine ⟨h.1, ?_, h.3, h.4, h.5, fun hc => absurd hc hopen⟩
    intro conn hmem
    obtain hmem | hmem := List.mem_append.mp hmem
    · exact h.watched conn hmem
    · rw [List.mem_singleton.mp hmem]
      exact fun res hres => absurd hres List.not_mem_nil
  | reaped hconn hstep =>
    exact closeIdleConnections h.attached (hset rfl hconn hstep) h.draining h.closing h.deaf
  | @conn c conn conn' e' hconn hstep hreaper =>
    refine ⟨h.attached, hset rfl hconn hstep, h.draining, h.closing, h.deaf, ?_⟩
    intro hclosed c' conn₁ hconn₁ hlive hwaiting
    -- the listener runs on every `finish`, so this is none
    have hnone : ∀ i keepAlive, e' ≠ .finish i keepAlive := by
      rintro i keepAlive rfl
      refine hreaper ⟨?_, h.draining (h.closing hclosed)⟩
      cases Conn.steps_of_step hstep with
      | finish hres =>
        have hwatched := h.watched conn (List.mem_of_getElem? hconn) _ (List.mem_of_getElem? hres)
        simpa [Conn.listened, hres] using hwatched
    rw [getElem?_set hconn] at hconn₁
    split at hconn₁
    · subst_vars
      cases Option.some.inj hconn₁
      obtain rfl | ⟨i, keepAlive, rfl⟩ := Conn.waiting_step hstep hlive hwaiting
      · exact ⟨past, [], rfl, fun _ _ _ => List.not_mem_nil⟩
      · exact absurd rfl (hnone i keepAlive)
    · refine (h.behind hclosed c' conn₁ hconn₁ hlive hwaiting).append ?_
      intro c₂ i keepAlive heq
      cases heq
      exact hnone i keepAlive rfl
  | closeServer hreaper =>
    exact closeIdleConnections (fun _ => hreaper) h.watched (fun _ => rfl) (fun _ => rfl) h.deaf
  | preClosed hclosing =>
    exact closeIdleConnections h.attached h.watched h.draining (fun _ => hclosing) fun _ => rfl

end Reaped

/-! ### Runs -/

/-- No request comes before `makeDefaultShutdownDeps`, as `index.ts` has it. -/
def AttachedFirst (es : List HttpEvent) : Prop :=
  ∀ es₁ c es₂, es = es₁ ++ .conn c .request :: es₂ → .makeDefaultShutdownDeps ∈ es₁

variable {node : Node} {s s' : Server} {es : List HttpEvent}

theorem AttachedFirst.of_append {es' : List HttpEvent} (h : AttachedFirst (es ++ es')) :
    AttachedFirst es := by
  intro es₁ c es₂ heq
  refine h es₁ c (es₂ ++ es') ?_
  rw [heq, List.append_assoc, List.cons_append]

/-- `index.ts` calls it before it listens. -/
theorem attachedFirst_cons (es : List HttpEvent) :
    AttachedFirst (.makeDefaultShutdownDeps :: es) := by
  intro es₁ c es₂ heq
  cases es₁ with
  | nil => cases heq
  | cons e es₁ =>
    cases heq
    exact List.mem_cons_self

/-- **The run lemma.** -/
theorem Reaped.of_run (hrun : Server.start.run node es = some s) (hfirst : AttachedFirst es) :
    Reaped node es s := by
  have h := Runs.foldlM_history (I := fun past s =>
    (s.attached = true ↔ .makeDefaultShutdownDeps ∈ past) ∧
      (AttachedFirst past → Reaped node past s)) hrun ?_ ?_
  · exact h.2 hfirst
  · exact ⟨by simp [Server.start], fun _ => Reaped.start⟩
  · rintro past s s' e hs ⟨hattached, ih⟩
    refine ⟨?_, fun hfirst => (ih hfirst.of_append).step hs ?_⟩
    · rw [attached_step hs, hattached, List.mem_append, List.mem_singleton, eq_comm (a := e)]
    · rintro c rfl
      exact hattached.mpr (hfirst past c [] rfl)

theorem Awaited.of_run {c : ℕ} (h : s.Awaited c) (hrun : s.run node es = some s')
    (hended : .conn c (.ended 0) ∉ es) (hhangUp : .conn c .hangUp ∉ es) : s'.Awaited c := by
  refine Runs.foldlM_induction (I := fun s => s.Awaited c) hrun h ?_
  intro s s' e he hs h
  exact h.step hs (fun heq => hended (heq ▸ he)) (fun heq => hhangUp (heq ▸ he))

/-- The first connection is parked and two requests have come on the second one when the drain
begins. The body of the last request comes after its response. -/
def threeClients : List HttpEvent :=
  [.makeDefaultShutdownDeps, .listen, .accept, .accept, .accept,
    .conn 0 .receive, .conn 0 .request, .conn 0 .received, .conn 0 (.ended 0),
    .conn 0 (.finish 0 true),
    .conn 1 .receive, .conn 1 .request, .conn 1 .received, .conn 1 .receive, .conn 1 .request,
    .conn 1 .received, .conn 2 .receive, .conn 2 .request,
    .closeServer, .preClosed,
    .conn 1 (.ended 0), .conn 1 (.finish 0 true),
    .conn 2 (.ended 0), .conn 2 (.finish 0 true), .conn 2 .received]

/-- The second connection has a response to come and the third one has been left behind. -/
def twoLeft : Server :=
  ⟨false, true, true, true, true,
    [⟨false, .received, []⟩, ⟨true, .received, [⟨true, false⟩]⟩, ⟨true, .received, []⟩]⟩

/-- The next response to finish ends them both. -/
example : ∀ s ∈ twoLeft.run ⟨false, true⟩ [.conn 1 (.ended 0), .conn 1 (.finish 0 true)],
    s.Drained := by
  decide

/-- A request that has come before the reaper leaves its connection behind. -/
example : start.run ⟨true, true⟩ [.listen, .accept, .conn 0 .receive, .conn 0 .request,
      .conn 0 .received, .makeDefaultShutdownDeps, .closeServer, .preClosed, .conn 0 (.ended 0),
      .conn 0 (.finish 0 true)] =
    some ⟨false, true, true, true, true, [⟨true, .received, []⟩]⟩ :=
  rfl

end Server

end ScalableBooking.Lifecycle
