import ScalableBooking.Booking.Outcome

/-!
# The steps of a booking

The four transactions are looked at together: a commit leaves the row of a booking as it is, makes
a pending one, or takes it to a next status (`Call.Commits.bookingStep`). So a commit that is
announced makes the one transition that the event stands for (`Message.Announces.makes`).
-/

namespace ScalableBooking.Booking

open ReadCommitted

/-- The status that can come next. Nothing comes after `cancelled` and `expired`. -/
def BookingStatus.Next : BookingStatus → BookingStatus → Prop
  | .pending, status => status = .confirmed ∨ status = .cancelled ∨ status = .expired
  | .confirmed, status => status = .cancelled
  | .cancelled, _ | .expired, _ => False

theorem BookingStatus.Next.canBecome {status status' : BookingStatus} (h : status.Next status') :
    status.CanBecome status' := by
  cases status with
  | pending => trivial
  | confirmed => exact .inr h
  | cancelled => exact h.elim
  | expired => exact h.elim

/-- What one commit can do to the row of a booking. -/
inductive BookingStep : Option BookingRow → Option BookingRow → Prop where
  | same (row : Option BookingRow) : BookingStep row row
  | made (row : BookingRow) (hpending : row.status = .pending) : BookingStep none (some row)
  | moved (row row' : BookingRow) (hnext : row.status.Next row'.status)
      (hkeep : row' = { row with status := row'.status, updatedAt := row'.updatedAt }) :
      BookingStep (some row) (some row')

theorem BookingRow.Becomes.of_next {row row' : BookingRow} (hnext : row.status.Next row'.status)
    (hkeep : row' = { row with status := row'.status, updatedAt := row'.updatedAt }) :
    row.Becomes row' := by
  refine ⟨hnext.canBecome, ?_, ?_, ?_, ?_⟩
  all_goals rw [hkeep]

/-! ### One commit -/

section Commit

variable {db db' : Db backend} {b c : ℕ}

/-- A transition of the booking `b` is a step of it, and leaves the other bookings alone. -/
theorem Moved.bookingStep {booking booking' : BookingRow} {from_ : List BookingStatus}
    {seatFrom : List SeatStatus} {target : SeatStatus}
    (h : Moved b booking booking' from_ seatFrom target db db')
    (hnext : booking.status ∈ from_ → booking.status.Next booking'.status)
    (hkeep : booking' =
      { booking with status := booking'.status, updatedAt := booking'.updatedAt }) :
    BookingStep (db (.booking c)) (db' (.booking c)) := by
  obtain ⟨hbooking, hfrom, -, seat, -, -, rfl⟩ := h
  by_cases hc : c = b
  · subst hc
    rw [settle_booking_self, hbooking]
    exact .moved _ _ (hnext hfrom) hkeep
  · rw [settle_booking_ne hc]
    exact .same _

/-- A commit of a call makes at most one step of each booking. -/
theorem Call.Commits.bookingStep {call : Call} (h : call.Commits db db') (c : ℕ) :
    BookingStep (db (.booking c)) (db' (.booking c)) := by
  cases call with
  | reserveSeat seatId userId =>
    obtain ⟨_, b, holdExpiresAt, now, seat, -, hnew, -, -, rfl⟩ := h
    by_cases hc : c = b
    · subst hc
      rw [settle_booking_self, hnew]
      exact .made _ rfl
    · rw [settle_booking_ne hc]
      exact .same _
  | confirmBooking b userId =>
    obtain rfl | ⟨_, booking, now, -, hmoved⟩ := h
    · exact .same _
    · refine hmoved.bookingStep ?_ rfl
      intro hfrom
      rw [List.mem_singleton.mp hfrom]
      exact .inl rfl
  | cancelBooking b userId =>
    obtain rfl | ⟨_, booking, now, -, hmoved⟩ := h
    · exact .same _
    · refine hmoved.bookingStep ?_ rfl
      intro hfrom
      obtain hs | hs : booking.status = .pending ∨ booking.status = .confirmed := by
        simpa using hfrom
      · rw [hs]
        exact .inr (.inl rfl)
      · rw [hs]
        rfl
  | expireHold b =>
    obtain rfl | ⟨booking, hmoved | ⟨hbooking, hstatus, rfl⟩⟩ := h
    · exact .same _
    · refine hmoved.bookingStep ?_ rfl
      intro hfrom
      rw [List.mem_singleton.mp hfrom]
      exact .inr (.inr rfl)
    · -- the booking alone, without its seat
      by_cases hc : c = b
      · subst hc
        rw [Function.update_self, hbooking]
        refine .moved _ _ ?_ rfl
        rw [hstatus]
        exact .inr (.inr rfl)
      · rw [Function.update_of_ne (by simpa using hc)]
        exact .same _

/-- Bookings that make such steps only go forwards. -/
theorem later_of_bookingStep
    (h : ∀ c, BookingStep (db (.booking c)) (db' (.booking c))) : Later db db' := by
  intro c row hrow
  have hstep := h c
  rw [hrow] at hstep
  generalize db' (.booking c) = o at hstep
  cases hstep with
  | same => exact ⟨row, rfl, row.becomes_refl⟩
  | moved _ row' hnext hkeep => exact ⟨row', rfl, .of_next hnext hkeep⟩

end Commit

/-! ### One step of the machine -/

section Machine

variable {P : Type} [DecidableEq P] {calls : P → Call} {s s' : State backend P Result}
  {log : P → List (Db backend × Db backend)} {Q : P → Result → Past backend → Prop}
  {e : Event backend P}

/-- What a step of the machine commits is a commit of its call. -/
theorem commits_of_step (h : Sound (.free backend) (fun p => (calls p).account) Q log s)
    (hs : s.step e = some s') {p : P} {c : Db backend × Db backend} (hc : c ∈ s.commits p e) :
    (calls p).Commits c.1 c.2 := by
  obtain ⟨-, hnone⟩ | ⟨q, t, rfl, -, hcommits, hguar, -⟩ := h.commits_step hs
  · rw [hnone p] at hc
    cases hc
  · obtain rfl := Option.some.inj (State.actor_of_commits hc)
    rw [hcommits, List.mem_singleton] at hc
    rw [hc]
    exact hguar

/-- A step of the machine makes at most one step of each booking. -/
theorem bookingStep_of_step (h : Sound (.free backend) (fun p => (calls p).account) Q log s)
    (hs : s.step e = some s') (b : ℕ) : BookingStep (s.db (.booking b)) (s'.db (.booking b)) := by
  obtain ⟨hdb, -⟩ | ⟨p, t, -, -, -, hguar, -⟩ := h.commits_step hs
  · rw [hdb]
    exact .same _
  · exact Call.Commits.bookingStep hguar b

theorem later_of_step (h : Sound (.free backend) (fun p => (calls p).account) Q log s)
    (hs : s.step e = some s') : Later s.db s'.db :=
  later_of_bookingStep (bookingStep_of_step h hs)

end Machine

/-! ### One event -/

/-- The transition of the booking `b` that an event announces. -/
def EventType.Makes (type : EventType) (b : ℕ) (db db' : Db backend) : Prop :=
  ∃ row' : BookingRow, db' (.booking b) = some row' ∧ row'.status = type.status ∧
    match type with
    | created => db (.booking b) = none
    | confirmed => ∃ row : BookingRow, db (.booking b) = some row ∧ row.status = .pending
    | cancelled => ∃ row : BookingRow, db (.booking b) = some row ∧ row.status.Active

/-- A commit that is announced makes the transition announced, and no other. -/
theorem Message.Announces.makes {message : Message} {call : Call} {db db' : Db backend}
    (h : message.Announces db db') (hcommit : call.Commits db db') :
    message.type.Makes message.payload.bookingId db db' := by
  obtain ⟨-, hbefore, row', hrow', hstatus'⟩ := h
  have hstep := hcommit.bookingStep message.payload.bookingId
  refine ⟨row', hrow', hstatus', ?_⟩
  rw [hrow'] at hstep
  cases hrow : db (.booking message.payload.bookingId) with
  | none =>
    rw [hrow] at hstep
    cases hstep with
    | made _ hpending =>
      rw [hpending] at hstatus'
      cases htype : message.type with
      | created => rfl
      | confirmed => simp [htype, EventType.status] at hstatus'
      | cancelled => simp [htype, EventType.status] at hstatus'
  | some row =>
    rw [hrow] at hstep
    cases hstep with
    | same =>
      -- it had come so far before
      refine (hbefore ⟨row', hrow, ?_⟩).elim
      rw [hstatus']
      exact BookingStatus.canBecome_refl _
    | moved _ _ hnext _ =>
      rw [hstatus'] at hnext
      cases htype : message.type with
      | created =>
        rw [htype] at hnext
        cases hs : row.status <;> simp [hs, BookingStatus.Next, EventType.status] at hnext
      | confirmed =>
        refine ⟨row, rfl, ?_⟩
        rw [htype] at hnext
        cases hs : row.status <;> simp [hs, BookingStatus.Next, EventType.status] at hnext ⊢
      | cancelled =>
        refine ⟨row, rfl, ?_⟩
        rw [htype] at hnext
        cases hs : row.status <;>
          simp [hs, BookingStatus.Next, EventType.status, BookingStatus.Active] at hnext ⊢

end ScalableBooking.Booking
