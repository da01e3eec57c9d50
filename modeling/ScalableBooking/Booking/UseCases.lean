import ScalableBooking.Booking.Types

/-!
# The use cases

`seat.repository.ts`, the four use cases that change seats and bookings, the two that read
bookings, and the calls they make to the queue and the broker, statement by statement. A call whose
failure the source catches and logs goes on in the same way whatever the reply is.
-/

namespace ScalableBooking.Booking

open ReadCommitted

/-! ### The seat repository -/

/-- The `UPDATE` all four transitions of a seat are made with: from one of the states `from_`
to the state `target`, with the version one higher. -/
def updateSeat (from_ : List SeatStatus) (target : SeatStatus) (seatId : ℕ) :
    Tx backend (Option SeatRow) :=
  .update (.seat seatId) (fun row => decide (row.status ∈ from_))
    (fun row => { row with status := target, version := row.version + 1 }) .ret

/-- `reserveSeatRow`. -/
def reserveSeatRow : ℕ → Tx backend (Option SeatRow) := updateSeat [.available] .held

/-- `releaseSeatRow`. -/
def releaseSeatRow : ℕ → Tx backend (Option SeatRow) := updateSeat [.held] .available

/-- `confirmSeatRow`. -/
def confirmSeatRow : ℕ → Tx backend (Option SeatRow) := updateSeat [.held] .booked

/-- `releaseHeldOrBookedSeatRow`. -/
def releaseHeldOrBookedSeatRow : ℕ → Tx backend (Option SeatRow) :=
  updateSeat [.held, .booked] .available

/-- `findSeatById`. -/
def findSeatById (seatId : ℕ) : Prog backend (Option SeatRow) :=
  .select (.seat seatId) (fun _ => true) .ret

/-! ### Statements on bookings -/

/-- The `UPDATE` of a booking by its id and its state. -/
def updateBooking (bookingId : ℕ) (from_ : List BookingStatus) (set : BookingRow → BookingRow) :
    Tx backend (Option BookingRow) :=
  .update (.booking bookingId) (fun row => decide (row.status ∈ from_)) set .ret

/-- The ownership check: `SELECT` by the booking's id and its user. -/
def findOwnBooking (bookingId userId : ℕ) : Prog backend (Option BookingRow) :=
  .select (.booking bookingId) (fun row => decide (row.userId = userId)) .ret

/-- The `SELECT` on the error path. -/
def findBooking (bookingId : ℕ) : Prog backend (Option BookingRow) :=
  .select (.booking bookingId) (fun _ => true) .ret

/-- `current?.status ?? "unknown"`. -/
def statusText (current : Option BookingRow) : String :=
  current.elim "unknown" fun row => row.status.text

/-! ### The queue and the broker -/

/-- The deterministic id of a booking's expiry job. -/
def holdExpiryJobId (bookingId : ℕ) : String := s!"hold-expiry-{bookingId}"

/-- `scheduleHoldExpiry`. -/
def scheduleHoldExpiry (bookingId holdExpiresAt : ℕ) : Prog backend Reply :=
  .now fun now =>
    .effect
      (.add
        { name := "expire-hold", bookingId, delay := holdExpiresAt - now,
          jobId := holdExpiryJobId bookingId, removeOnComplete := true, attempts := 3,
          backoffDelay := 5000, removeOnFailCount := 200 }) .ret

/-- The clean-up after a cancellation: the job is removed if it is still there. -/
def removeHoldExpiry (bookingId : ℕ) : Prog backend Unit :=
  .effect (.getJob (holdExpiryJobId bookingId)) fun
    -- a job that is gone, or a queue that fails, ends the clean-up
    | .resolved => .effect (.remove (holdExpiryJobId bookingId)) fun _ => .ret ()
    | _ => .ret ()

/-- `publishBookingEvent`. -/
def publishBookingEvent (type : EventType) (payload : Payload) : Prog backend Reply :=
  .now fun now =>
    .effect
      (.send
        { topic := "booking.events", key := toString payload.bookingId, type, payload,
          timestamp := now }) .ret

/-! ### `reserveSeat` -/

/-- The transaction of `reserveSeat`: the seat and the booking together. -/
def reserveSeatTx (seatId userId holdExpiresAt : ℕ) : Tx backend (ℕ × BookingRow) := do
  match ← reserveSeatRow seatId with
  | none => .fail (.seatUnavailable seatId)
  | some _ =>
      -- both timestamps of the new row are the defaults of the columns, `now()`
      .insert [.seat seatId, .user userId]
        (fun _ now =>
          ({ seatId, userId, status := .pending, holdExpiresAt := some holdExpiresAt,
             createdAt := now, updatedAt := now } : BookingRow))
        fun id inserted => .ret (id, inserted)

/-- `reserveSeat`. -/
def reserveSeat (env : Env) (seatId userId : ℕ) : Prog backend Result := do
  match ← findSeatById seatId with
  | none => .fail (.seatNotFound seatId)
  | some _ =>
      -- the hold counts from before the transaction
      let holdExpiresAt ← Prog.now fun now => .ret (now + env.holdDurationMs)
      let (bookingId, booking) ←
        Prog.transaction (reserveSeatTx seatId userId holdExpiresAt) .ret
      let _ ← scheduleHoldExpiry bookingId holdExpiresAt
      let _ ← publishBookingEvent .created
        { bookingId, seatId, userId, holdExpiresAt := some holdExpiresAt }
      return .reserved bookingId booking

/-! ### `confirmBooking` -/

/-- The transaction of `confirmBooking`: `none` if the booking was no longer pending. -/
def confirmBookingTx (bookingId : ℕ) : Tx backend (Option BookingRow) := do
  let now ← Tx.now .ret
  match ← updateBooking bookingId [.pending] fun row =>
      { row with status := .confirmed, updatedAt := now } with
  | none => return none
  | some updatedBooking =>
      match ← confirmSeatRow updatedBooking.seatId with
      | none => .fail (.confirmDrift bookingId updatedBooking.seatId)
      | some _ => return some updatedBooking

/-- `confirmBooking`. -/
def confirmBooking (bookingId userId : ℕ) : Prog backend Result := do
  match ← findOwnBooking bookingId userId with
  | none => .fail (.bookingNotFound bookingId)
  | some _ =>
      match ← Prog.transaction (confirmBookingTx bookingId) .ret with
      | none =>
          -- only for the text of the error, so a booking that is gone is no failure
          let current ← findBooking bookingId
          .fail (.bookingNotConfirmable bookingId (statusText current))
      | some confirmed =>
          let _ ← publishBookingEvent .confirmed
            { bookingId, seatId := confirmed.seatId, userId := confirmed.userId,
              holdExpiresAt := none }
          return .confirmed bookingId confirmed

/-! ### `cancelBooking` -/

/-- The transaction of `cancelBooking`: `none` if the booking was neither pending nor
confirmed. -/
def cancelBookingTx (bookingId : ℕ) : Tx backend (Option BookingRow) := do
  let now ← Tx.now .ret
  match ← updateBooking bookingId [.pending, .confirmed] fun row =>
      { row with status := .cancelled, updatedAt := now } with
  | none => return none
  | some updatedBooking =>
      match ← releaseHeldOrBookedSeatRow updatedBooking.seatId with
      | none => .fail (.cancelDrift bookingId updatedBooking.seatId)
      | some _ => return some updatedBooking

/-- `cancelBooking`. -/
def cancelBooking (bookingId userId : ℕ) : Prog backend Result := do
  match ← findOwnBooking bookingId userId with
  | none => .fail (.bookingNotFound bookingId)
  | some _ =>
      match ← Prog.transaction (cancelBookingTx bookingId) .ret with
      | none =>
          let current ← findBooking bookingId
          .fail (.bookingNotCancellable bookingId (statusText current))
      | some cancelled =>
          removeHoldExpiry bookingId
          let _ ← publishBookingEvent .cancelled
            { bookingId, seatId := cancelled.seatId, userId := cancelled.userId,
              holdExpiresAt := none }
          return .cancelled bookingId cancelled

/-! ### `expireHold` -/

/-- The transaction of `expireHold`. Neither `updatedAt` nor the result of the seat's update is
looked at. -/
def expireHoldTx (bookingId : ℕ) : Tx backend (Option (BookingRow × Option SeatRow)) := do
  match ← updateBooking bookingId [.pending] fun row => { row with status := .expired } with
  | none => return none
  | some expiredBooking =>
      let seat ← releaseSeatRow expiredBooking.seatId
      return some (expiredBooking, seat)

/-- `expireHold`. -/
def expireHold (bookingId : ℕ) : Prog backend Result := do
  let rows ← Prog.transaction (expireHoldTx bookingId) .ret
  return .expired rows

/-! ### `getBooking` and `listBookings` -/

/-- `getBooking`. -/
def getBooking (bookingId userId : ℕ) : Prog backend (ℕ × BookingRow) := do
  match ← findOwnBooking bookingId userId with
  | none => .fail (.bookingNotFound bookingId)
  | some booking => return (bookingId, booking)

/-- `listBookings` can return the rows: the bookings of the user, each once, the newest first. The
order of those that were created at one time is left open. -/
def ListBookings (db : Db backend) (userId : ℕ) (rows : List (ℕ × BookingRow)) : Prop :=
  rows.Nodup ∧ (rows.Pairwise fun x y => y.2.createdAt ≤ x.2.createdAt) ∧
    ∀ (b : ℕ) (row : BookingRow),
      (b, row) ∈ rows ↔ db (.booking b) = some row ∧ row.userId = userId

/-! ### Calls -/

/-- A call of one of the four use cases: three from the controller, one from the worker. -/
inductive Call where
  | reserveSeat (seatId userId : ℕ)
  | confirmBooking (bookingId userId : ℕ)
  | cancelBooking (bookingId userId : ℕ)
  | expireHold (bookingId : ℕ)
deriving DecidableEq, Repr

/-- The program of a call. -/
def Call.code (env : Env) : Call → Prog backend Result
  | reserveSeat seatId userId => Booking.reserveSeat env seatId userId
  | confirmBooking bookingId userId => Booking.confirmBooking bookingId userId
  | cancelBooking bookingId userId => Booking.cancelBooking bookingId userId
  | expireHold bookingId => Booking.expireHold bookingId

/-- The existing booking a call is about. -/
def Call.bookingId? : Call → Option ℕ
  | reserveSeat _ _ => none
  | confirmBooking bookingId _ | cancelBooking bookingId _ | expireHold bookingId =>
      some bookingId

/-- The machine before anything has happened: a committed database, a sequence and a clock at
some value, and one process for each call. -/
def start {P : Type} (env : Env) (calls : P → Call) (db : Db backend) (nextId clock : ℕ) :
    State backend P Result :=
  .initial db nextId clock fun p => (calls p).code env

end ScalableBooking.Booking
