import ScalableBooking.Booking.Outcome
import ScalableBooking.Lib.Linearizable

/-!
# The booking module is linearizable

What a call of one of the four use cases does when it has the tables for itself is said in one
step (`Call.atomic`): the rows that it finds decide between its outcomes, and with the outcome go
the two rows that it leaves. Calls that run at the same time, statement by statement, do what these
atomic calls do one after another, in an order that agrees with the time
(`linearizable_of_run`). This covers the calls that reject. Each of them rejects for a reason that
was in the tables at one moment of the call.

A call that changes the tables takes effect with its commit. One that rejects does so at the
statement that has found nothing. The exception is the error path of `confirmBooking` and
`cancelBooking`, which reads the booking once more for the text of the error. The call takes effect
with this `SELECT`, for the state named in the error may be one that the booking has come to since
the transaction.
-/

namespace ScalableBooking.Booking

open ReadCommitted

/-! ### Atomic calls -/

/-- The booking `b` is there and belongs to the user. -/
def Owns (db : Db backend) (b userId : ℕ) : Prop :=
  ∃ row : BookingRow, db (.booking b) = some row ∧ row.userId = userId

/-- The call resolves with `r`, and leaves `db'`. -/
def Call.Resolves : Call → Db backend → Db backend → Result → Prop
  | reserveSeat seatId userId, db, db', r =>
      (db (.user userId)).isSome ∧ (reserveSeat seatId userId).Transition r db db'
  | confirmBooking b userId, db, db', r =>
      Owns db b userId ∧ (confirmBooking b userId).Transition r db db'
  | cancelBooking b userId, db, db', r =>
      Owns db b userId ∧ (cancelBooking b userId).Transition r db db'
  | expireHold b, db, db', r =>
      (r = .expired none ∧ db' = db ∧
        ∀ booking : BookingRow, db (.booking b) = some booking → booking.status ≠ .pending) ∨
      ∃ (booking : BookingRow) (seat : SeatRow),
        let booking' := { booking with status := .expired }
        r = .expired (some (booking', some (seat.moved .available))) ∧
          db (.booking b) = some booking ∧ booking.status = .pending ∧
          db (.seat booking.seatId) = some seat ∧ seat.status = .held ∧
          db' = settle db b booking' (seat.moved .available)

/-- The call rejects with `e`. -/
def Call.Rejects : Call → Db backend → BookingError → Prop
  | reserveSeat seatId _, db, e =>
      (db (.seat seatId) = none ∧ e = .seatNotFound seatId) ∨
      ∃ seat : SeatRow, db (.seat seatId) = some seat ∧ seat.status ≠ .available ∧
        e = .seatUnavailable seatId
  | confirmBooking b userId, db, e =>
      (¬Owns db b userId ∧ e = .bookingNotFound b) ∨
      ∃ row : BookingRow, db (.booking b) = some row ∧ row.userId = userId ∧
        row.status ≠ .pending ∧ e = .bookingNotConfirmable b row.status.text
  | cancelBooking b userId, db, e =>
      (¬Owns db b userId ∧ e = .bookingNotFound b) ∨
      ∃ row : BookingRow, db (.booking b) = some row ∧ row.userId = userId ∧
        ¬row.status.Active ∧ e = .bookingNotCancellable b row.status.text
  | expireHold _, _, _ => False

/-- The call in one moment. -/
def Call.atomic (call : Call) : Atomic backend Result := fun db db' o =>
  match o with
  | .ok r => call.Resolves db db' r
  | .error e => db' = db ∧ call.Rejects db e

/-! ### The transactions -/

section Transactions

variable {A : Atomic backend Result} {start b : ℕ} {seen : Db backend} {α : Type}

/-- A transaction that starts from a booking takes effect with its commit if it changes the
booking. If the booking is in another state, it may take effect when it sees that. -/
theorem settleTx_linear {from_ : List BookingStatus} {set : BookingRow → BookingRow}
    {seatFrom : List SeatStatus} {target : SeatStatus}
    {rest : Option BookingRow → Tx backend (Option α)}
    {next : BookingRow → Option SeatRow → Tx backend (Option α)}
    {v : BookingRow → SeatRow → α}
    {K : Option (Outcome backend Result) → Option α → Db backend → Prop}
    (hset : ∀ booking : BookingRow, (set booking).seatId = booking.seatId)
    (hfrom : ∀ booking : BookingRow, booking.status ∈ from_ → booking.status.Active ∧
      (Entry.of b booking.status).seatStatus ∈ seatFrom)
    (hrest : rest none = .ret none)
    (hrest' : ∀ row, rest (some row) = (updateSeat seatFrom target row.seatId).bind (next row))
    (hnext : ∀ row seat, next row (some seat) = .ret (some (v row seat)))
    (hnone : ∀ db, discipline.Reaches seen db → (∀ booking : BookingRow,
      db (.booking b) = some booking → booking.status ∉ from_) →
        ∃ d, Decides A db db none d ∧ ∀ db', discipline.Reaches db db' → K d none db')
    (h : ∀ (db : Db backend) (booking : BookingRow) (seat : SeatRow),
      discipline.Reaches seen db → db (.booking b) = some booking → booking.status ∈ from_ →
      db (.seat booking.seatId) = some seat → seat.status ∈ seatFrom →
        let db' := settle db b (set booking) (seat.moved target)
        ∃ d, Decides A db db' none d ∧ K d (some (v (set booking) (seat.moved target))) db') :
    ((updateBooking b from_ set).bind rest).Linear discipline A start
      (CommitLinear discipline A K) none seen Writes.empty := by
  rw [Tx.linear_bind]
  simp only [updateBooking, Tx.Linear, Writes.overlay_empty, decide_eq_true_eq,
    decide_eq_false_iff_not]
  intro db₁ _ hreach₁ _
  refine ⟨?_, ?_⟩
  · intro booking hbooking hstatus
    rw [hrest', Tx.linear_bind, hset]
    simp only [updateSeat, Tx.Linear, Writes.overlay_write, Writes.overlay_empty,
      decide_eq_true_eq, decide_eq_false_iff_not]
    rintro db₂ ⟨ledger, hrep⟩ hreach₂ hw
    have hheld : db₂ (.booking b) = some booking := by
      rw [hw.of_write, hbooking]
    refine ⟨?_, ?_⟩
    · intro seat hseat hseatStatus
      rw [hnext]
      intro db _ hreach hw'
      -- both rows are held, so the commit finds them as they were
      have hseat' : db (.seat booking.seatId) = some seat := by
        rw [hw'.of_write]
        simpa using hseat
      have hbooking' : db (.booking b) = some booking := by
        have hne : RowId.booking b ≠ RowId.seat booking.seatId := by simp
        rw [hw'.of_write_ne hne (Writes.write_self _ _ _ _), hbooking]
      have hoverlay : ((Writes.empty.write db₁ (.booking b) (set booking)).write db₂
          (.seat booking.seatId) (seat.moved target)).overlay db =
            settle db b (set booking) (seat.moved target) := by
        rw [Writes.overlay_write, Writes.overlay_write, Writes.overlay_empty, settle, hset]
      have hreach' := hreach₁.trans (hreach₂.trans hreach)
      obtain ⟨d, hd, hK⟩ := h db booking seat hreach' hbooking' hstatus hseat' hseatStatus
      refine ⟨d, ?_, ?_⟩
      · rw [← hoverlay] at hd
        exact hd
      · rw [← hoverlay] at hK
        exact hK
    · intro hno
      -- the seat of an active booking is always found
      obtain ⟨hactive, hseatFrom⟩ := hfrom booking hstatus
      obtain ⟨seat, hseat, hseatStatus⟩ := hrep.seat_of_active hheld hactive
      rw [← hseatStatus] at hseatFrom
      exact absurd hseatFrom (hno seat (by simpa using hseat))
  · intro hno
    obtain ⟨d, hd, hK⟩ := hnone db₁ hreach₁ hno
    refine ⟨d, hd, ?_⟩
    rw [hrest]
    intro db _ hreach _
    exact ⟨d, .later d rfl, hK db hreach⟩

end Transactions

/-! ### The calls -/

section Calls

variable {A : Atomic backend Result} {seen : Db backend} {b : ℕ}
  {d : Option (Outcome backend Result)}

theorem scheduleHoldExpiry_linear {holdExpiresAt : ℕ}
    {K : Option (Outcome backend Result) → Reply → Db backend → Prop} (h : ∀ r, K d r seen) :
    (scheduleHoldExpiry b holdExpiresAt).Linear discipline A K d seen := by
  intro _ r
  exact h r

theorem removeHoldExpiry_linear {K : Option (Outcome backend Result) → Unit → Db backend → Prop}
    (h : K d () seen) : (removeHoldExpiry b).Linear discipline A K d seen := by
  intro r
  cases r with
  | resolved => exact fun _ => h
  | absent => exact h
  | rejected => exact h

theorem publishBookingEvent_linear {type : EventType} {payload : Payload}
    {K : Option (Outcome backend Result) → Reply → Db backend → Prop} (h : ∀ r, K d r seen) :
    (publishBookingEvent type payload).Linear discipline A K d seen := by
  intro _ r
  exact h r

/-- A row that was there is there, with another content perhaps. -/
theorem exists_seat_of_reaches {db : Db backend} {i : ℕ} {seat : SeatRow}
    (h : discipline.Reaches seen db) (hseat : seen (.seat i) = some seat) :
    ∃ seat' : SeatRow, db (.seat i) = some seat' :=
  Option.isSome_iff_exists.mp (h.2 (.seat i) (by rw [hseat]; rfl))

/-- A booking keeps its user. -/
theorem exists_booking_of_reaches {db : Db backend} {row : BookingRow}
    (h : discipline.Reaches seen db) (hrow : seen (.booking b) = some row) :
    ∃ row' : BookingRow, db (.booking b) = some row' ∧ row.Becomes row' :=
  Later.exists_row h.1 hrow

theorem reserveSeat_linear (env : Env) (seatId userId : ℕ) :
    (reserveSeat env seatId userId).Linear discipline (Call.reserveSeat seatId userId).atomic
      Returned none seen := by
  simp only [reserveSeat, findSeatById, Prog.bind_eq, Prog.bind, Prog.Linear]
  intro db₀ _ _
  cases hexisting : db₀ (.seat seatId) with
  | none =>
    exact ⟨_, .here (.error (BookingError.seatNotFound seatId)) ⟨rfl, .inl ⟨hexisting, rfl⟩⟩,
      .inr rfl⟩
  | some existing =>
    refine ⟨none, .later none rfl, ?_⟩
    intro now start
    simp only [reserveSeatTx, reserveSeatRow, updateSeat, Tx.bind_eq, Tx.bind, Tx.Linear,
      Writes.overlay_empty, List.mem_singleton, decide_eq_true_eq, decide_eq_false_iff_not]
    intro db₁ _ hreach₁ _
    refine ⟨?_, ?_⟩
    · rintro seat hseat hstatus db₂ n - - - hrefs hfresh - db - hreach hw
      have hseat' : db (.seat seatId) = some seat := by
        have hne : RowId.seat seatId ≠ RowId.booking n := by simp
        rw [hw.of_write_ne hne (Writes.write_self _ _ _ _), hseat]
      have hnew : db (.booking n) = none := by
        rw [hw.of_write, hfresh]
      -- the user was there when its key was looked up, and no row is lost
      have huser : (db (.user userId)).isSome := by
        have := hrefs (.user userId) (by simp)
        rw [Writes.overlay_write, Function.update_of_ne (by simp), Writes.overlay_empty] at this
        exact hreach.2 _ this
      rw [Writes.overlay_write, Writes.overlay_write, Writes.overlay_empty,
        Function.update_comm (by simp)]
      refine ⟨_, .here (.ok (.reserved n _)) ⟨huser, n, now + env.holdDurationMs, start, seat, rfl,
        hnew, hseat', hstatus, rfl⟩, ?_⟩
      refine (Prog.linear_bind ..).mpr (scheduleHoldExpiry_linear fun _ => ?_)
      exact (Prog.linear_bind ..).mpr (publishBookingEvent_linear fun _ => rfl)
    · intro hno
      obtain ⟨seat, hseat⟩ :=
        exists_seat_of_reaches hreach₁ hexisting
      exact ⟨_, .here (.error (BookingError.seatUnavailable seatId))
        ⟨rfl, .inr ⟨seat, hseat, hno seat hseat, rfl⟩⟩, .inr rfl⟩

theorem confirmBooking_linear (userId : ℕ) :
    (confirmBooking b userId).Linear discipline (Call.confirmBooking b userId).atomic Returned
      none seen := by
  simp only [confirmBooking, findOwnBooking, Prog.bind_eq, Prog.bind, Prog.Linear]
  intro db₀ _ _
  cases hown : (db₀ (.booking b)).filter fun row => decide (row.userId = userId) with
  | none =>
    refine ⟨_, .here (.error (BookingError.bookingNotFound b)) ⟨rfl, .inl ⟨?_, rfl⟩⟩, .inr rfl⟩
    rintro ⟨row, hrow, huser⟩
    simp [hrow, huser] at hown
  | some existing =>
    obtain ⟨hexisting, huser⟩ := Option.filter_eq_some_iff.mp hown
    rw [decide_eq_true_eq] at huser
    refine ⟨none, .later none rfl, ?_⟩
    intro start now
    refine settleTx_linear (v := fun booking _ => booking) (fun _ => rfl) ?_ rfl (fun _ => rfl)
      (fun _ _ => rfl) ?_ ?_
    · intro booking hstatus
      rw [List.mem_singleton] at hstatus
      exact ⟨.inl hstatus, by simp [hstatus, Entry.of, Entry.seatStatus]⟩
    · intro db₁ hreach₁ hno
      refine ⟨none, .later none rfl, ?_⟩
      intro db₂ hreach₂ db₃ _ hreach₃
      -- the booking was not pending, and is not when it is read once more
      obtain ⟨row₁, hrow₁, hbecomes₁⟩ := exists_booking_of_reaches hreach₁ hexisting
      obtain ⟨row, hrow, hbecomes⟩ := exists_booking_of_reaches (hreach₂.trans hreach₃) hrow₁
      have hnot : row.status ≠ .pending := by
        intro hpending
        exact hno row₁ hrow₁ (List.mem_singleton.mpr (hbecomes.pending hpending))
      have huser' : row.userId = userId :=
        (hbecomes.userId.trans hbecomes₁.userId).trans huser
      rw [hrow]
      exact ⟨_, .here (.error (BookingError.bookingNotConfirmable b row.status.text))
        ⟨rfl, .inr ⟨row, hrow, huser', hnot, rfl⟩⟩, .inr rfl⟩
    · intro db booking seat hreach hbooking hstatus hseat hseatStatus
      obtain ⟨row, hrow, hbecomes⟩ := exists_booking_of_reaches hreach hexisting
      have howns : Owns db b userId := ⟨row, hrow, hbecomes.userId.trans huser⟩
      refine ⟨_, .here (.ok (.confirmed b _)) ⟨howns, booking, now, rfl, hbooking, hstatus, rfl,
        seat, hseat, hseatStatus, rfl⟩, ?_⟩
      exact (Prog.linear_bind ..).mpr (publishBookingEvent_linear fun _ => rfl)

theorem cancelBooking_linear (userId : ℕ) :
    (cancelBooking b userId).Linear discipline (Call.cancelBooking b userId).atomic Returned
      none seen := by
  simp only [cancelBooking, findOwnBooking, Prog.bind_eq, Prog.bind, Prog.Linear]
  intro db₀ _ _
  cases hown : (db₀ (.booking b)).filter fun row => decide (row.userId = userId) with
  | none =>
    refine ⟨_, .here (.error (BookingError.bookingNotFound b)) ⟨rfl, .inl ⟨?_, rfl⟩⟩, .inr rfl⟩
    rintro ⟨row, hrow, huser⟩
    simp [hrow, huser] at hown
  | some existing =>
    obtain ⟨hexisting, huser⟩ := Option.filter_eq_some_iff.mp hown
    rw [decide_eq_true_eq] at huser
    refine ⟨none, .later none rfl, ?_⟩
    intro start now
    refine settleTx_linear (v := fun booking _ => booking) (fun _ => rfl) ?_ rfl (fun _ => rfl)
      (fun _ _ => rfl) ?_ ?_
    · intro booking hstatus
      have hactive : booking.status.Active := by simpa [BookingStatus.Active] using hstatus
      refine ⟨hactive, ?_⟩
      rcases hactive with hs | hs
      · simp [hs, Entry.of, Entry.seatStatus]
      · simp [hs, Entry.of, Entry.seatStatus]
    · intro db₁ hreach₁ hno
      refine ⟨none, .later none rfl, ?_⟩
      intro db₂ hreach₂ db₃ _ hreach₃
      obtain ⟨row₁, hrow₁, hbecomes₁⟩ := exists_booking_of_reaches hreach₁ hexisting
      obtain ⟨row, hrow, hbecomes⟩ := exists_booking_of_reaches (hreach₂.trans hreach₃) hrow₁
      have hnot : ¬row.status.Active := by
        intro hactive
        refine hno row₁ hrow₁ (BookingStatus.mem_active_of_canBecome _ _ hbecomes.status ?_)
        simpa [BookingStatus.Active] using hactive
      have huser' : row.userId = userId :=
        (hbecomes.userId.trans hbecomes₁.userId).trans huser
      rw [hrow]
      exact ⟨_, .here (.error (BookingError.bookingNotCancellable b row.status.text))
        ⟨rfl, .inr ⟨row, hrow, huser', hnot, rfl⟩⟩, .inr rfl⟩
    · intro db booking seat hreach hbooking hstatus hseat hseatStatus
      obtain ⟨row, hrow, hbecomes⟩ := exists_booking_of_reaches hreach hexisting
      have howns : Owns db b userId := ⟨row, hrow, hbecomes.userId.trans huser⟩
      refine ⟨_, .here (.ok (.cancelled b _)) ⟨howns, booking, now, rfl, hbooking, hstatus, rfl,
        seat, hseat, hseatStatus, rfl⟩, ?_⟩
      -- neither the job nor the event can change what has happened
      refine (Prog.linear_bind ..).mpr (removeHoldExpiry_linear ?_)
      exact (Prog.linear_bind ..).mpr (publishBookingEvent_linear fun _ => rfl)

theorem expireHold_linear :
    (expireHold b).Linear discipline (Call.expireHold b).atomic Returned none seen := by
  simp only [expireHold, Prog.bind_eq, Prog.bind, Prog.pure_eq, Prog.Linear, Returned]
  intro start
  refine settleTx_linear (v := fun booking seat => (booking, some seat)) (fun _ => rfl) ?_ rfl
    (fun _ => rfl) (fun _ _ => rfl) ?_ ?_
  · intro booking hstatus
    rw [List.mem_singleton] at hstatus
    exact ⟨.inl hstatus, by simp [hstatus, Entry.of, Entry.seatStatus]⟩
  · intro db _ hno
    refine ⟨_, .here (.ok (.expired none)) (.inl ⟨rfl, rfl, ?_⟩), fun _ _ => rfl⟩
    intro booking hbooking hpending
    exact hno booking hbooking (List.mem_singleton.mpr hpending)
  · intro db booking seat _ hbooking hstatus hseat hseatStatus
    exact ⟨_, .here (.ok (.expired (some (_, some _)))) (.inr ⟨booking, seat, rfl, hbooking,
      List.mem_singleton.mp hstatus, hseat, List.mem_singleton.mp hseatStatus, rfl⟩), rfl⟩

/-- Every call takes effect at one of its statements. -/
theorem Call.linear (env : Env) (call : Call) :
    (call.code env).Linear discipline call.atomic Returned none seen := by
  cases call with
  | reserveSeat seatId userId => exact reserveSeat_linear env seatId userId
  | confirmBooking b userId => exact confirmBooking_linear userId
  | cancelBooking b userId => exact cancelBooking_linear userId
  | expireHold b => exact expireHold_linear

end Calls

/-! ### Runs -/

section Runs

variable {P : Type} [DecidableEq P] {env : Env} {calls : P → Call} {db : Db backend}
  {nextId clock : ℕ} {s : State backend P Result} {es : List (Event backend P)}

/-- A call that has rejected, other than by a broken connection, did so at one of its statements,
for a reason that was in the tables then. -/
theorem exists_rejects_of_run (h : Untouched db)
    (hrun : (start env calls db nextId clock).run es = some s) {p : P} {e : BookingError}
    (hp : s.procs p = .outside (.fail e)) (hfault : e ≠ .infrastructure) :
    ∃ es₁ ev es₂ s₁, es = es₁ ++ ev :: es₂ ∧ ev.actor = some p ∧
      (start env calls db nextId clock).run es₁ = some s₁ ∧ (calls p).Rejects s₁.db e ∧
        Later s₁.db s.db := by
  have hlinear : (start env calls db nextId clock).Linear discipline (fun p => (calls p).atomic)
      fun _ => none :=
    State.Linear.of_initial fun p => (calls p).linear env
  obtain ⟨es₁, ev, es₂, s₁, s₂, rfl, hrun₁, hs, hrun₂, hev, hatomic⟩ :=
    hlinear.exists_effect (start_sound h) hrun rfl (o := .error e) (by rw [hp]; rfl)
      (fun heq => hfault (Except.error.inj heq))
  obtain ⟨hdb, hrejects⟩ := hatomic
  refine ⟨es₁, ev, es₂, s₁, rfl, hev, hrun₁, hrejects, ?_⟩
  rw [← hdb]
  exact (((start_sound h).run hrun₁).step hs).rely_run hrun₂

/-- **The use cases are linearizable.** Any run of any calls on an untouched database, with
connections that may break, has an order in which the atomic calls do the same one after another:
the calls that have ended, other than by a broken connection, have their outcomes in it, and each
has its place between its first step and its last. -/
theorem linearizable_of_run (h : Untouched db)
    (hrun : (start env calls db nextId clock).run es = some s) :
    ∃ order, Linearization (fun p => (calls p).atomic) (start env calls db nextId clock) es s
      order :=
  exists_linearization (start_sound h) (fun p => (calls p).linear env) hrun

end Runs

/-- Two reservations of one seat. -/
def rivals : Bool → Call := fun _ => .reserveSeat 1 7

/-- Both find the seat, and the second one waits for its row until the first has committed. -/
def closeCall : List (Event backend Bool) :=
  [.run true, .run false, .run true, .run true, .run true, .run true, .run false, .run false,
    .run false, .run true, .run true, .run false, .run false, .run true, .reply true .resolved,
    .run true, .reply true .resolved]

theorem linearizable_of_run_rivals :
    ∃ s, (start Env.default rivals oneSeat 1 0).run closeCall = some s ∧
      (s.procs false).outcome? = some (.error (BookingError.seatUnavailable 1)) ∧
      ∃ order, Linearization (fun p => (rivals p).atomic) (start Env.default rivals oneSeat 1 0)
        closeCall s order := by
  have hrun : (start Env.default rivals oneSeat 1 0).run closeCall = some _ := rfl
  exact ⟨_, hrun, rfl, linearizable_of_run untouched_oneSeat hrun⟩

end ScalableBooking.Booking
