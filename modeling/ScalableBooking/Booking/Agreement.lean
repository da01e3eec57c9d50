import ScalableBooking.Booking.Contracts

/-!
# Seats and bookings agree

Any number of calls of the four use cases, with their statements interleaved in any order and
their transactions aborted anywhere, starting from a database without bookings. In every state
reached, every seat agrees with its bookings, no seat has two active bookings, and no step of a
call about one booking changes a seat that another booking has (`agreement_of_run`).

The run keeps the ledger (`start_sound`), which is where the first two parts come from. The
third is read off the contracts: what a call about a booking changes is the seat of that
booking, and only while it is active (`Call.guar_seat`).
-/

namespace ScalableBooking.Booking

open ReadCommitted

section Runs

variable {P : Type} [DecidableEq P] {env : Env} {calls : P → Call} {db : Db backend}
  {nextId clock : ℕ} {s s' : State backend P Result}

/-- The seat that a booking's transition changes is the one the booking stands on. -/
theorem Moves.seat {b : ℕ} {from_ : List BookingStatus} {upd : BookingRow → BookingRow → Prop}
    {db' : Db backend} (h : Moves b from_ upd db db')
    (hupd : ∀ row row', upd row row' → row'.seatId = row.seatId) {i : ℕ}
    (hi : db' (.seat i) ≠ db (.seat i)) :
    ∃ booking : BookingRow, db (.booking b) = some booking ∧ booking.seatId = i ∧
      booking.status ∈ from_ := by
  obtain ⟨booking, booking', seat, hbooking, hstatus, -, -, hrow, rfl⟩ := h
  refine ⟨booking, hbooking, ?_, hstatus⟩
  -- `settle` leaves the rows of other seats alone
  by_contra hne
  refine hi (settle_seat_ne ?_)
  rw [hupd _ _ hrow]
  exact fun heq => hne heq.symm

/-- A call about the booking `b` changes only the seat of `b`, and only while `b` is active. -/
theorem Call.guar_seat {call : Call} {b start : ℕ} {db' : Db backend}
    (hcall : call.bookingId? = some b) (h : call.guar start db db') {i : ℕ}
    (hi : db' (.seat i) ≠ db (.seat i)) :
    ∃ booking : BookingRow, db (.booking b) = some booking ∧ booking.seatId = i ∧
      booking.status.Active := by
  cases call with
  | reserveSeat seatId userId => cases hcall
  -- each commits nothing or settles its own booking
  | confirmBooking c userId =>
    cases hcall
    obtain rfl | hmoves := h
    · exact absurd rfl hi
    · obtain ⟨booking, hbooking, hseat, hstatus⟩ :=
        hmoves.seat (by rintro _ _ ⟨_, _, rfl⟩; rfl) hi
      exact ⟨booking, hbooking, hseat, .inl (List.mem_singleton.mp hstatus)⟩
  | cancelBooking c userId =>
    cases hcall
    obtain rfl | hmoves := h
    · exact absurd rfl hi
    · obtain ⟨booking, hbooking, hseat, hstatus⟩ :=
        hmoves.seat (by rintro _ _ ⟨_, _, rfl⟩; rfl) hi
      exact ⟨booking, hbooking, hseat, by simpa [BookingStatus.Active] using hstatus⟩
  | expireHold c =>
    cases hcall
    obtain rfl | hmoves := h
    · exact absurd rfl hi
    · obtain ⟨booking, hbooking, hseat, hstatus⟩ := hmoves.seat (by rintro _ _ rfl; rfl) hi
      exact ⟨booking, hbooking, hseat, .inl (List.mem_singleton.mp hstatus)⟩

/-- The booking `b` is active on the seat `i`. -/
def ActiveOn (db : Db backend) (b i : ℕ) : Prop :=
  ∃ row : BookingRow, db (.booking b) = some row ∧ row.seatId = i ∧ row.status.Active

/-- Seats and bookings agree in the state `s`: every seat with its bookings, at most one
booking is active on a seat, and no step of a confirmation, cancellation or expiry of a booking
`b` changes the seat of another active booking. -/
structure Agreement (calls : P → Call) (s : State backend P Result) : Prop where
  seat : ∀ (i : ℕ) (seat : SeatRow), s.db (.seat i) = some seat → SeatAgrees s.db i seat
  unique : ∀ i b c, ActiveOn s.db b i → ActiveOn s.db c i → b = c
  stale : ∀ (e : Event backend P) (s' : State backend P Result) (p : P) (b c i : ℕ),
    s.step e = some s' → e.actor = some p → (calls p).bookingId? = some b →
      ActiveOn s.db c i → c ≠ b → s'.db (.seat i) = s.db (.seat i)

/-- Two bookings active on one seat are the same, while the tables show a ledger. -/
theorem ActiveOn.unique {ledger : Ledger} (h : Represents db ledger) {b c i : ℕ}
    (hb : ActiveOn db b i) (hc : ActiveOn db c i) : b = c := by
  obtain ⟨row, hrow, rfl, hactive⟩ := hb
  obtain ⟨row', hrow', hseat, hactive'⟩ := hc
  exact h.eq_of_active hrow hrow' hactive hactive' hseat.symm

/-- In every state that a run from an untouched database reaches, seats and bookings agree. -/
theorem agreement_of_run (h : Untouched db) {es : List (Event backend P)}
    (hrun : (start env calls db nextId clock).run es = some s) : Agreement calls s := by
  have hsound := (start_sound h).run hrun
  -- the ledger that the reached tables show
  obtain ⟨ledger, hrep⟩ := hsound.inv
  refine ⟨?_, ?_, ?_⟩
  · intro i seat hseat
    exact hrep.seatAgrees hseat
  · intro i b c hb hc
    exact hb.unique hrep hc
  · intro e s' p b c i hstep hactor hcall hc hne
    -- a step that changed the seat would have to be a commit
    by_contra hi
    obtain hdb | ⟨q, t, rfl, -, hguar, -⟩ := hsound.db_step hstep
    · exact hi (by rw [hdb])
    · -- the step commits a transaction of this call, so it changes the seat of `b` only
      cases hactor
      exact hne (hc.unique hrep (Call.guar_seat hcall hguar hi))

end Runs

/-- A reservation, and the expiry of its hold. -/
def holdAndExpire : Bool → Call
  | true => .reserveSeat 1 7
  | false => .expireHold 1

/-- The transaction of the expiry begins before the reservation has committed. -/
def expiryRace : List (Event backend Bool) :=
  [.run true, .run true, .run true, .run true, .run true, .run true, .run false, .run true,
    .tick 300000, .run false, .run false, .run false, .run false, .run false]

theorem agreement_of_run_oneSeat :
    ∃ s, (start Env.default holdAndExpire oneSeat 1 0).run expiryRace = some s ∧
      s.db (.seat 1) = some { status := .available, version := 2 } ∧
      Agreement holdAndExpire s := by
  have hrun : (start Env.default holdAndExpire oneSeat 1 0).run expiryRace = some _ := rfl
  exact ⟨_, hrun, rfl, agreement_of_run untouched_oneSeat hrun⟩

end ScalableBooking.Booking
