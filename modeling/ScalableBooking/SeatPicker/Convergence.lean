import ScalableBooking.Lib.Replica
import ScalableBooking.SeatPicker.Page

/-!
# When the seat map is right

The page is a copy of some seats that takes its updates from two queues: the changes that the
consumer has not come to, and the messages on their way to the socket. What is answered counts as
the copy before it is applied (`State.copy`), so a message that comes while the list is `null` is
lost, like one for which no socket is open or one on a connection that drops.

In a run whose steps lose nothing that the copy needs, the page is right whenever it has caught up
(`converged_of_run`). A step that does lose something can be continued to a state in which the
page has caught up and is wrong, and it stays so (`exists_diverged`).
-/

namespace ScalableBooking.SeatPicker

open Booking (SeatStatus)
open Realtime Replica

variable {N : Type}

/-- The key and the value of an update. -/
def updates (msgs : List (SeatUpdateMessage N)) : List (N × SeatStatus) :=
  msgs.map fun msg => (msg.seatId, msg.status)

theorem updates_append (msgs msgs' : List (SeatUpdateMessage N)) :
    updates (msgs ++ msgs') = updates msgs ++ updates msgs' :=
  List.map_append

namespace State

/-- The seats that the page has loaded, or that are on their way to it. -/
def held (s : State N) : List (Seat N) :=
  match s.page.seats, s.request with
  | some seats, _ => seats
  | none, .answered seats => seats
  | none, _ => []

/-- The messages to come. -/
def toCome (s : State N) : List (SeatUpdateMessage N) := s.inFlight ++ s.captured

/-- The first of the messages to come, those that a step takes without giving them to the list. -/
def lost (s : State N) : Event N → List (SeatUpdateMessage N)
  | .consume => if s.connection = .opened then [] else s.captured.take 1
  | .deliver => if s.page.seats.isNone then s.inFlight.take 1 else []
  | .drop => s.inFlight
  | _ => []

variable [DecidableEq N]

/-- The step loses nothing that matters: of every seat that is held and of which a message is lost,
another message is still to come, or what is held is already what the lost one says. -/
def Spares (s : State N) (e : Event N) : Prop :=
  ∀ seat ∈ s.held, ∀ status, latest (updates (s.lost e)) seat.id = some status →
    latest (updates (s.toCome.drop (s.lost e).length)) seat.id = none → seat.status = status

/-- So do all steps of the run. -/
def Sparing (view : View N) (s : State N) : List (Event N) → Prop
  | [] => True
  | e :: es => s.Spares e ∧ ∀ s', s.step view e = some s' → s'.Sparing view es

omit [DecidableEq N] in
/-- Once the list is there, the socket is open and no message is to come, each seat has the status
that it has in the database. -/
def Converged (s : State N) : Prop :=
  ∀ seats, s.page.seats = some seats → s.connection = .opened → s.inFlight = [] →
    s.captured = [] → ∀ seat ∈ seats, seat.status = s.db seat.id

omit [DecidableEq N] in
/-- The held seats as a copy of the database. -/
def copy (s : State N) : Set (N × SeatStatus) :=
  {entry | ∃ seat ∈ s.held, seat.id = entry.1 ∧ seat.status = entry.2}

/-- What is held follows the database. -/
def Follows (s : State N) : Prop :=
  Replica.Follows s.db s.copy (updates s.toCome)

/-- The present socket of the page watches its event as long as it is open, and otherwise nothing
is on its way. The list comes from the one request. -/
structure Wired (view : View N) (s : State N) : Prop where
  watches : s.connection = .opened → s.rooms.Watches view.eventId s.socket
  opened : s.connection = .opened → s.readyState s.socket = .opened
  idle : s.connection ≠ .opened → s.inFlight = []
  event : ∀ msg ∈ s.captured, msg.eventId = view.eventId
  settled : ∀ seats, s.page.seats = some seats → s.request = .settled

/-! ### One step -/

section Step

variable {view : View N} {s s' : State N} {e : Event N}

theorem seats_toggleSeat (page : Page N) (seat : Seat N) :
    (page.toggleSeat seat).seats = page.seats := by
  simp only [Page.toggleSeat]
  split_ifs <;> rfl

omit [DecidableEq N] in
theorem held_of_some {seats : List (Seat N)} (h : s.page.seats = some seats) : s.held = seats := by
  simp only [held, h]

/-- Whatever happens, the present socket stays where the server finds it. -/
theorem Wired.step (h : Wired view s) (hs : s.step view e = some s') : Wired view s' := by
  cases e with
  | commit seatId status =>
    cases hs
    refine { h with event := ?_ }
    intro msg hmsg
    obtain hmsg | hmsg := List.mem_append.mp hmsg
    · exact h.event msg hmsg
    · rw [List.mem_singleton.mp hmsg]
  | consume =>
    simp only [State.step] at hs
    split at hs
    · cases hs
    · rename_i msg captured hcaptured
      have hevent : ∀ msg ∈ captured, msg.eventId = view.eventId := by
        intro msg hmsg
        exact h.event msg (hcaptured ▸ List.mem_cons_of_mem _ hmsg)
      split at hs
      · rename_i hsent
        cases hs
        exact { h with idle := fun hclosed => absurd hsent.1 hclosed, event := hevent }
      · cases hs
        exact { h with event := hevent }
  | read =>
    simp only [State.step] at hs
    split at hs
    · rename_i hsent
      cases hs
      refine { h with settled := ?_ }
      intro seats hseats
      rw [h.settled seats hseats] at hsent
      cases hsent
    · cases hs
  | respond =>
    simp only [State.step] at hs
    split at hs
    · cases hs
      exact { h with settled := fun _ _ => rfl }
    · cases hs
  | fail =>
    simp only [State.step] at hs
    split at hs
    · cases hs
    · cases hs
      exact { h with settled := fun _ _ => rfl }
  | accept =>
    obtain ⟨-, hs⟩ := Option.ite_none_right_eq_some.mp hs
    cases hs
    exact { h with
      watches := fun _ => Rooms.watches_subscribe _ _ _
      opened := fun _ => Function.update_self _ _ _
      idle := fun hclosed => absurd rfl hclosed }
  | deliver =>
    simp only [State.step] at hs
    split at hs
    · cases hs
    · rename_i msg inFlight hinFlight
      cases hs
      refine { h with idle := ?_, settled := ?_ }
      · intro hclosed
        rw [h.idle hclosed] at hinFlight
        cases hinFlight
      · intro seats hseats
        obtain ⟨prev, hprev, -⟩ := Option.map_eq_some_iff.mp hseats
        exact h.settled prev hprev
  | drop =>
    obtain ⟨-, hs⟩ := Option.ite_none_left_eq_some.mp hs
    cases hs
    exact { h with
      watches := fun hopened => by cases hopened
      opened := fun hopened => by cases hopened
      idle := fun _ => rfl }
  | reconnect =>
    obtain ⟨hwaiting, hs⟩ := Option.ite_none_right_eq_some.mp hs
    cases hs
    exact { h with
      watches := fun hopened => by cases hopened
      opened := fun hopened => by cases hopened
      idle := fun _ => h.idle (by rw [hwaiting]; decide) }
  | close socket =>
    obtain ⟨⟨hold, -⟩, hs⟩ := Option.ite_none_right_eq_some.mp hs
    cases hs
    -- the socket that ends is not the one that is open
    have hne (hopened : s.connection = .opened) : s.socket ≠ socket := by
      obtain hlt | hwaiting := hold
      · exact (Nat.ne_of_lt hlt).symm
      · rw [hopened] at hwaiting
        cases hwaiting
    refine { h with watches := ?_, opened := ?_ }
    · intro hopened
      exact Rooms.watches_unsubscribe (h.watches hopened) (hne hopened)
    · intro hopened
      exact (Function.update_of_ne (hne hopened) _ _).trans (h.opened hopened)
  | click seat =>
    simp only [State.step] at hs
    split at hs
    · cases hs
    · obtain ⟨-, hs⟩ := Option.ite_none_right_eq_some.mp hs
      cases hs
      refine { h with settled := ?_ }
      intro seats hseats
      rw [seats_toggleSeat] at hseats
      exact h.settled seats hseats

theorem spares_of_lost (h : s.lost e = []) : s.Spares e := by
  intro seat _ status hstatus
  rw [h] at hstatus
  cases hstatus

/-- A step that only takes messages from the front, without giving them to the list. -/
theorem Follows.iff_spares (h : s.Follows) (hdb : s'.db = s.db) (hheld : s'.held = s.held)
    (htoCome : s.toCome = s.lost e ++ s'.toCome) : s'.Follows ↔ s.Spares e := by
  have hrest : s.toCome.drop (s.lost e).length = s'.toCome := by
    rw [htoCome, List.drop_left]
  rw [Follows, htoCome, updates_append] at h
  have hcopy : s'.copy = s.copy := by simp only [copy, hheld]
  rw [Follows, hdb, hcopy, Spares, hrest]
  refine h.lose_iff.trans ⟨?_, ?_⟩
  · intro hspared seat hseat status
    exact hspared seat.id seat.status status ⟨seat, hseat, rfl, rfl⟩
  · rintro hspared _ _ status ⟨seat, hseat, rfl, rfl⟩
    exact hspared seat hseat status

/-- A step that takes no message, and after which what is held was read or was held before. -/
theorem Follows.of_held (h : s.Follows) (hdb : s'.db = s.db) (htoCome : s'.toCome = s.toCome)
    (hheld : ∀ seat ∈ s'.held, seat.status = s.db seat.id ∨ seat ∈ s.held) : s'.Follows := by
  rw [Follows, hdb, htoCome]
  refine h.copy_of_mem ?_
  rintro _ _ ⟨seat, hseat, rfl, rfl⟩
  exact (hheld seat hseat).imp id fun hseat => ⟨seat, hseat, rfl, rfl⟩

/-- Messages that are lost come from the front, and nothing else changes. -/
theorem toCome_of_lost (hw : Wired view s) (hs : s.step view e = some s') (hlost : s.lost e ≠ []) :
    s'.db = s.db ∧ s'.held = s.held ∧ s.toCome = s.lost e ++ s'.toCome := by
  cases e with
  | consume =>
    simp only [State.step] at hs
    split at hs
    · cases hs
    · rename_i msg captured hcaptured
      -- something is lost only without a connection, and then no message is in flight
      have hclosed : s.connection ≠ .opened := fun hopened => hlost (if_pos hopened)
      rw [if_neg fun hsent => hclosed hsent.1] at hs
      cases hs
      refine ⟨rfl, rfl, ?_⟩
      simp [toCome, lost, hw.idle hclosed, hclosed, hcaptured]
  | deliver =>
    simp only [State.step] at hs
    split at hs
    · cases hs
    · rename_i msg inFlight hinFlight
      cases hs
      cases hseats : s.page.seats with
      | none =>
        refine ⟨rfl, ?_, ?_⟩
        · simp only [held, Page.handleLiveUpdate, hseats, Option.map_none]
        · simp [toCome, lost, hseats, hinFlight]
      | some seats =>
        simp only [lost, hseats] at hlost
        exact absurd rfl hlost
  | drop =>
    obtain ⟨-, hs⟩ := Option.ite_none_left_eq_some.mp hs
    cases hs
    exact ⟨rfl, rfl, rfl⟩
  | _ => exact absurd rfl hlost

/-- What is held follows the database after a step if and only if the step spares it. -/
theorem Follows.step (hw : Wired view s) (h : s.Follows) (hs : s.step view e = some s') :
    s'.Follows ↔ s.Spares e := by
  -- where nothing is lost, each event moves an update along the chain or leaves it
  by_cases hlost : s.lost e = []
  case neg =>
    obtain ⟨hdb, hheld, htoCome⟩ := toCome_of_lost hw hs hlost
    exact h.iff_spares hdb hheld htoCome
  refine iff_of_true ?_ (spares_of_lost hlost)
  cases e with
  | commit seatId status =>
    cases hs
    have hwrite := Replica.Follows.write h seatId status
    rw [Follows, toCome, ← List.append_assoc, updates_append]
    exact hwrite
  | consume =>
    simp only [State.step] at hs
    split at hs
    · cases hs
    · rename_i msg captured hcaptured
      -- nothing is lost, so the page is connected and the message goes in flight
      have hopened : s.connection = .opened := by
        by_contra hclosed
        simp [lost, hclosed, hcaptured] at hlost
      have hsent : s.socket ∈ s.rooms.broadcastSeatUpdate s.readyState msg := by
        refine Rooms.mem_broadcastSeatUpdate.mpr ⟨?_, hw.opened hopened⟩
        rw [hw.event msg (hcaptured ▸ List.mem_cons_self)]
        exact hw.watches hopened
      rw [if_pos ⟨hopened, hsent⟩] at hs
      cases hs
      refine h.of_held rfl ?_ fun _ hseat => .inr hseat
      simp [toCome, hcaptured]
  | read =>
    simp only [State.step] at hs
    split at hs
    · cases hs
      refine h.of_held rfl rfl ?_
      intro seat hseat
      cases hseats : s.page.seats with
      | none =>
        simp only [held, hseats] at hseat
        obtain ⟨id, -, rfl⟩ := List.mem_map.mp hseat
        exact .inl rfl
      | some seats =>
        simp only [held, hseats] at hseat
        exact .inr (held_of_some hseats ▸ hseat)
    · cases hs
  | respond =>
    simp only [State.step] at hs
    split at hs
    · rename_i seats hanswered
      cases hs
      refine h.of_held rfl rfl ?_
      intro seat hseat
      cases hseats : s.page.seats with
      | none => exact .inr (by simpa only [held, hseats, hanswered] using hseat)
      | some seats =>
        rw [hw.settled seats hseats] at hanswered
        cases hanswered
    · cases hs
  | fail =>
    simp only [State.step] at hs
    split at hs
    · cases hs
    · cases hs
      refine h.of_held rfl rfl ?_
      intro seat hseat
      cases hseats : s.page.seats with
      | none =>
        simp only [held, hseats] at hseat
        cases hseat
      | some seats =>
        simp only [held, hseats] at hseat
        exact .inr (held_of_some hseats ▸ hseat)
  | accept =>
    obtain ⟨-, hs⟩ := Option.ite_none_right_eq_some.mp hs
    cases hs
    exact h.of_held rfl rfl fun _ hseat => .inr hseat
  | deliver =>
    simp only [State.step] at hs
    split at hs
    · cases hs
    · rename_i msg inFlight hinFlight
      cases hs
      cases hseats : s.page.seats with
      | none => simp [lost, hseats, hinFlight] at hlost
      | some seats =>
        rw [Follows, toCome, hinFlight] at h
        refine Replica.Follows.receive h ?_
        rintro _ _ ⟨seat, hseat, rfl, rfl⟩
        simp only [held, Page.handleLiveUpdate, hseats, Option.map_some] at hseat
        obtain ⟨prev, hprev, rfl⟩ := List.mem_map.mp hseat
        -- the update is for this seat, or leaves it as it is
        by_cases hid : prev.id = msg.seatId
        · rw [if_pos hid]
          exact .inl ⟨hid, rfl⟩
        · rw [if_neg hid]
          exact .inr ⟨hid, prev, held_of_some hseats ▸ hprev, rfl, rfl⟩
  | drop =>
    obtain ⟨-, hs⟩ := Option.ite_none_left_eq_some.mp hs
    cases hs
    refine h.of_held rfl ?_ fun _ hseat => .inr hseat
    exact congrArg (· ++ s.captured) hlost.symm
  | reconnect =>
    obtain ⟨-, hs⟩ := Option.ite_none_right_eq_some.mp hs
    cases hs
    exact h.of_held rfl rfl fun _ hseat => .inr hseat
  | close socket =>
    obtain ⟨-, hs⟩ := Option.ite_none_right_eq_some.mp hs
    cases hs
    exact h.of_held rfl rfl fun _ hseat => .inr hseat
  | click seat =>
    simp only [State.step] at hs
    split at hs
    · cases hs
    · obtain ⟨-, hs⟩ := Option.ite_none_right_eq_some.mp hs
      cases hs
      refine h.of_held rfl rfl ?_
      intro seat' hseat
      simp only [held, seats_toggleSeat] at hseat
      exact .inr hseat

end Step

/-! ### Runs -/

section Runs

variable {view : View N} {s s' : State N} {e : Event N} {es : List (Event N)}

omit [DecidableEq N] in
theorem Wired.start (db : N → SeatStatus) : Wired view (.start db) where
  watches h := by cases h
  opened h := by cases h
  idle _ := rfl
  event _ h := by cases h
  settled _ h := by cases h

theorem Follows.start (db : N → SeatStatus) : (State.start db).Follows where
  leads k v h := by cases h
  right k v h := by
    obtain ⟨seat, hseat, -⟩ := h
    cases hseat

theorem Follows.run (hw : Wired view s) (h : s.Follows) (hsparing : s.Sparing view es)
    (hrun : s.run view es = some s') : Wired view s' ∧ s'.Follows := by
  induction es generalizing s with
  | nil =>
    cases hrun
    exact ⟨hw, h⟩
  | cons e es ih =>
    obtain ⟨s₁, hs, hrun⟩ := Option.bind_eq_some_iff.mp hrun
    exact ih (hw.step hs) ((Follows.step hw h hs).mpr hsparing.1) (hsparing.2 s₁ hs) hrun

theorem Sparing.cons (hlost : s.lost e = []) (hs : s.step view e = some s')
    (h : s'.Sparing view es) : s.Sparing view (e :: es) := by
  refine ⟨spares_of_lost hlost, ?_⟩
  intro s'' hs'
  rw [hs, Option.some.injEq] at hs'
  exact hs' ▸ h

theorem Follows.converged (h : s.Follows) : s.Converged := by
  intro seats hseats _ hinFlight hcaptured seat hseat
  rw [Follows, toCome, hinFlight, hcaptured] at h
  exact h.eq ⟨seat, held_of_some hseats ▸ hseat, rfl, rfl⟩

/-! ### After a loss -/

/-- A seat is held that is not as in the database, and no message about it is to come. -/
def Stale (s : State N) : Prop :=
  ∃ seat ∈ s.held, latest (updates s.toCome) seat.id = none ∧ seat.status ≠ s.db seat.id

theorem stale_of_step (hw : Wired view s) (h : s.Follows) (hs : s.step view e = some s')
    (hspares : ¬ s.Spares e) : s'.Stale := by
  have hlost : s.lost e ≠ [] := mt spares_of_lost hspares
  obtain ⟨hdb, hheld, htoCome⟩ := toCome_of_lost hw hs hlost
  simp only [Spares, not_forall] at hspares
  obtain ⟨seat, hseat, status, hstatus, hnone, hne⟩ := hspares
  rw [htoCome, List.drop_left] at hnone
  rw [Follows, htoCome, updates_append] at h
  have hdb' : status = s.db seat.id := by
    refine h.leads seat.id status ?_
    rw [latest_append, hnone, Option.none_or, hstatus]
  exact ⟨seat, hheld ▸ hseat, hnone, by rw [hdb, ← hdb']; exact hne⟩

/-- The page can catch up and be wrong. -/
def CanDiverge (view : View N) (s : State N) : Prop :=
  ∃ es s', s.run view es = some s' ∧ ¬ s'.Converged

theorem CanDiverge.of_step (hs : s.step view e = some s') (h : s'.CanDiverge view) :
    s.CanDiverge view := by
  obtain ⟨es, s'', hrun, hdiverged⟩ := h
  exact ⟨e :: es, s'', by rw [State.run, hs]; exact hrun, hdiverged⟩

/-- The messages on their way are delivered. -/
theorem Stale.deliver {seats : List (Seat N)} (h : s.Stale) (hseats : s.page.seats = some seats)
    (hopened : s.connection = .opened) (hcaptured : s.captured = []) : s.CanDiverge view := by
  induction hn : s.inFlight generalizing s seats with
  | nil =>
    refine ⟨[], s, rfl, ?_⟩
    intro hconverged
    obtain ⟨seat, hseat, -, hne⟩ := h
    rw [held_of_some hseats] at hseat
    exact hne (hconverged seats hseats hopened hn hcaptured seat hseat)
  | cons msg inFlight ih =>
    have hs : s.step view .deliver = some { s with
        page := s.page.handleLiveUpdate msg.seatId msg.status, inFlight } := by
      simp only [State.step, hn]
    have hseats' := congrArg (Option.map fun prev : List (Seat N) =>
      prev.map fun s => if s.id = msg.seatId then { s with status := msg.status } else s) hseats
    refine CanDiverge.of_step hs (ih ?_ hseats' hopened hcaptured rfl)
    obtain ⟨seat, hseat, hnone, hne⟩ := h
    rw [toCome, hn, List.cons_append, updates, List.map_cons, latest, Option.or_eq_none_iff]
      at hnone
    obtain ⟨hnone, hid⟩ := hnone
    -- no update is to come for the stale seat, so this one is for another
    have hid' : seat.id ≠ msg.seatId := by
      intro heq
      rw [if_pos heq.symm] at hid
      cases hid
    refine ⟨seat, ?_, hnone, hne⟩
    rw [held_of_some hseats']
    rw [held_of_some hseats] at hseat
    exact List.mem_map.mpr ⟨seat, hseat, if_neg hid'⟩

/-- The consumer comes to all the changes. -/
theorem Stale.consume {seats : List (Seat N)} (hw : Wired view s) (h : s.Stale)
    (hseats : s.page.seats = some seats) (hopened : s.connection = .opened) :
    s.CanDiverge view := by
  induction hn : s.captured generalizing s with
  | nil => exact h.deliver hseats hopened hn
  | cons msg captured ih =>
    have hsent : s.socket ∈ s.rooms.broadcastSeatUpdate s.readyState msg := by
      refine Rooms.mem_broadcastSeatUpdate.mpr ⟨?_, hw.opened hopened⟩
      rw [hw.event msg (hn ▸ List.mem_cons_self)]
      exact hw.watches hopened
    have hs : s.step view .consume = some { s with captured, inFlight := s.inFlight ++ [msg] } := by
      simp only [State.step, hn]
      exact if_pos ⟨hopened, hsent⟩
    refine CanDiverge.of_step hs (ih (hw.step hs) ?_ hseats hopened rfl)
    obtain ⟨seat, hseat, hnone, hne⟩ := h
    refine ⟨seat, hseat, ?_, hne⟩
    rw [toCome, hn] at hnone
    rw [toCome, List.append_assoc]
    exact hnone

/-- The server accepts the socket. -/
theorem Stale.accept {seats : List (Seat N)} (hw : Wired view s) (h : s.Stale)
    (hseats : s.page.seats = some seats) (hconnecting : s.connection = .connecting) :
    s.CanDiverge view := by
  have hs : s.step view .accept = some _ := if_pos hconnecting
  exact .of_step hs (Stale.consume (hw.step hs) h hseats rfl)

/-- The page is connected again. -/
theorem Stale.connect {seats : List (Seat N)} (hw : Wired view s) (h : s.Stale)
    (hseats : s.page.seats = some seats) : s.CanDiverge view := by
  cases hconnection : s.connection with
  | opened => exact h.consume hw hseats hconnection
  | connecting => exact h.accept hw hseats hconnection
  | waiting =>
    have hs : s.step view .reconnect = some _ := if_pos hconnection
    exact .of_step hs (Stale.accept (hw.step hs) h hseats rfl)

/-- The response arrives, if it has not. -/
theorem Stale.respond (hw : Wired view s) (h : s.Stale) : s.CanDiverge view := by
  cases hseats : s.page.seats with
  | some seats => exact h.connect hw hseats
  | none =>
    obtain ⟨seat, hseat, hstale⟩ := h
    cases hrequest : s.request with
    | answered seats =>
      simp only [held, hseats, hrequest] at hseat
      have hs : s.step view .respond = some { s with
          page := { s.page with seats := some seats }, request := .settled } := by
        simp only [State.step, hrequest]
      exact .of_step hs (Stale.connect (hw.step hs) ⟨seat, hseat, hstale⟩ rfl)
    | _ =>
      simp only [held, hseats, hrequest] at hseat
      cases hseat

end Runs

end State

/-- In a run whose steps spare the page, its seat map is right whenever it has caught up. -/
theorem converged_of_run [DecidableEq N] {view : View N} {db : N → SeatStatus} {s : State N}
    {es : List (Event N)} (hsparing : (State.start db).Sparing view es)
    (hrun : (State.start db).run view es = some s) : s.Converged :=
  (State.Follows.run (.start db) (.start db) hsparing hrun).2.converged

/-- One seat of event 7. -/
def oneSeat : View ℕ where
  eventId := 7
  seatIds := [1]

/-- The seat is held after the page has loaded, and then the page connects again. -/
def afterLoading : List (Event ℕ) :=
  [.accept, .read, .respond, .commit 1 .held, .consume, .deliver, .drop, .reconnect, .accept]

theorem converged_of_run_afterLoading :
    ∃ s, (State.start fun _ => .available).run oneSeat afterLoading = some s ∧
      s.page.seats = some [⟨1, .held⟩] ∧ s.Converged := by
  obtain ⟨s, hrun, hseats⟩ : ∃ s, (State.start fun _ => .available).run oneSeat afterLoading =
      some s ∧ s.page.seats = some [⟨1, .held⟩] := ⟨_, rfl, rfl⟩
  refine ⟨s, hrun, hseats, converged_of_run ?_ hrun⟩
  repeat refine State.Sparing.cons rfl rfl ?_
  trivial

/-- The seat is held while the snapshot is on its way. The message comes before the list and is
dropped, and the page has caught up with the seat available. -/
theorem late_snapshot :
    ∃ s, (State.start fun _ => .available).run oneSeat
        [.accept, .read, .commit 1 .held, .consume, .deliver, .respond] = some s ∧
      s.page.seats = some [⟨1, .available⟩] ∧ s.db 1 = .held ∧ ¬ s.Converged := by
  refine ⟨_, rfl, rfl, rfl, ?_⟩
  intro hconverged
  have hseat := hconverged _ rfl rfl rfl rfl ⟨1, .available⟩ List.mem_cons_self
  cases hseat

/-- If a step does not spare it, the run can go on so that the page has caught up and is wrong. -/
theorem exists_diverged [DecidableEq N] {view : View N} {db : N → SeatStatus} {s s' : State N}
    {e : Event N} {es : List (Event N)} (hsparing : (State.start db).Sparing view es)
    (hrun : (State.start db).run view es = some s) (hs : s.step view e = some s')
    (hspares : ¬ s.Spares e) : ∃ es' s'', s'.run view es' = some s'' ∧ ¬ s''.Converged := by
  obtain ⟨hw, h⟩ := State.Follows.run (.start db) (.start db) hsparing hrun
  exact State.Stale.respond (hw.step hs) (State.stale_of_step hw h hs hspares)

end ScalableBooking.SeatPicker
