import ScalableBooking.Lib.ReadCommitted

/-!
# Seats, bookings and what the use cases exchange with the outside

The two tables the booking module writes, the errors of `domain/booking.errors.ts`, and the
messages to the job queue and the broker. Ids are the keys of the rows. Times are milliseconds
of the one clock that application and database share.
-/

namespace ScalableBooking.Booking

open ReadCommitted

/-! ### Rows -/

/-- `seats.status`. -/
inductive SeatStatus where
  | available
  | held
  | booked
deriving DecidableEq, Repr

/-- `bookings.status`. -/
inductive BookingStatus where
  | pending
  | confirmed
  | cancelled
  | expired
deriving DecidableEq, Repr

/-- The text of a status, as it stands in the column. -/
def BookingStatus.text : BookingStatus → String
  | pending => "pending"
  | confirmed => "confirmed"
  | cancelled => "cancelled"
  | expired => "expired"

/-- The columns of `seats` that the booking module reads or writes. -/
structure SeatRow where
  status : SeatStatus
  version : ℕ
deriving DecidableEq, Repr

/-- A row of `bookings`. -/
structure BookingRow where
  seatId : ℕ
  userId : ℕ
  status : BookingStatus
  holdExpiresAt : Option ℕ
  createdAt : ℕ
  updatedAt : ℕ
deriving DecidableEq, Repr

/-- The primary keys. Of `users` only the existence of a row matters. -/
inductive RowId where
  | seat (id : ℕ)
  | booking (id : ℕ)
  | user (id : ℕ)
deriving DecidableEq, Repr

/-- The row type of each table. -/
abbrev RowId.Row : RowId → Type
  | seat _ => SeatRow
  | booking _ => BookingRow
  | user _ => Unit

/-! ### Errors -/

/-- What a use case can throw: the five domain errors, the two `state drift` errors, and a
failure of the database connection. -/
inductive BookingError where
  | seatNotFound (seatId : ℕ)
  | seatUnavailable (seatId : ℕ)
  | bookingNotFound (bookingId : ℕ)
  | bookingNotConfirmable (bookingId : ℕ) (status : String)
  | bookingNotCancellable (bookingId : ℕ) (status : String)
  | confirmDrift (bookingId seatId : ℕ)
  | cancelDrift (bookingId seatId : ℕ)
  | infrastructure
deriving DecidableEq, Repr

namespace BookingError

/-- The text of the error, where the booking module writes it. -/
def message : BookingError → Option String
  | seatNotFound id => some s!"Seat {id} not found"
  | seatUnavailable id => some s!"Seat {id} is not available"
  | bookingNotFound id => some s!"Booking {id} not found"
  | bookingNotConfirmable id status =>
      some s!"Booking {id} cannot be confirmed from status '{status}'"
  | bookingNotCancellable id status =>
      some s!"Booking {id} cannot be cancelled from status '{status}'"
  | confirmDrift id seat =>
      some s!"booking {id} confirmed but its seat {seat} was not 'held' -- state drift"
  | cancelDrift id seat =>
      some s!"booking {id} cancelled but its seat {seat} was not held/booked -- state drift"
  | infrastructure => none

/-- `statusCode` and `code` of an `AppError`. The other errors are plain. -/
def app : BookingError → Option (ℕ × String)
  | seatNotFound _ => some (404, "SEAT_NOT_FOUND")
  | seatUnavailable _ => some (409, "SEAT_UNAVAILABLE")
  | bookingNotFound _ => some (404, "BOOKING_NOT_FOUND")
  | bookingNotConfirmable _ _ => some (409, "BOOKING_NOT_CONFIRMABLE")
  | bookingNotCancellable _ _ => some (409, "BOOKING_NOT_CANCELLABLE")
  | confirmDrift _ _ => none
  | cancelDrift _ _ => none
  | infrastructure => none

/-- One of the two errors that report a booking and its seat out of step. -/
def IsDrift : BookingError → Prop
  | confirmDrift _ _ => True
  | cancelDrift _ _ => True
  | _ => False

end BookingError

/-! ### Effects -/

/-- The job `holdExpiryQueue.add` is given, with its options. -/
structure HoldExpiryJob where
  name : String
  bookingId : ℕ
  delay : ℕ
  jobId : String
  removeOnComplete : Bool
  attempts : ℕ
  backoffDelay : ℕ
  removeOnFailCount : ℕ
deriving DecidableEq, Repr

/-- The first argument of `publishBookingEvent`. -/
inductive EventType where
  | created
  | confirmed
  | cancelled
deriving DecidableEq, Repr

def EventType.text : EventType → String
  | created => "booking.created"
  | confirmed => "booking.confirmed"
  | cancelled => "booking.cancelled"

/-- The payload of an event. Only `booking.created` carries `holdExpiresAt`. -/
structure Payload where
  bookingId : ℕ
  seatId : ℕ
  userId : ℕ
  holdExpiresAt : Option ℕ
deriving DecidableEq, Repr

/-- A message for the broker, before its value is turned into JSON. -/
structure Message where
  topic : String
  key : String
  type : EventType
  payload : Payload
  timestamp : ℕ
deriving DecidableEq, Repr

/-- The calls to BullMQ and to the Kafka producer. -/
inductive Effect where
  | add (job : HoldExpiryJob)
  | getJob (jobId : String)
  | remove (jobId : String)
  | send (message : Message)
deriving DecidableEq, Repr

/-- How such a call ends. `absent` is the `undefined` of `getJob`. -/
inductive Reply where
  | resolved
  | absent
  | rejected
deriving DecidableEq, Repr

/-! ### The language of the use cases -/

/-- The database and the outside world of the booking module. -/
abbrev backend : Signature where
  Key := RowId
  Row := RowId.Row
  serial := .booking
  serial_injective := fun _ _ h => RowId.booking.inj h
  Effect := Effect
  Reply := Reply
  Error := BookingError
  fault := .infrastructure

/-- The setting the use cases read: a positive integer number of milliseconds. -/
structure Env where
  holdDurationMs : ℕ
  pos : 0 < holdDurationMs

/-- The environment when `HOLD_DURATION_MS` is not set. -/
def Env.default : Env where
  holdDurationMs := 5 * 60 * 1000
  pos := by decide

/-- What a use case returns: the booking row under its id, or for `expireHold` the rows it
changed, if any. -/
inductive Result where
  | reserved (bookingId : ℕ) (booking : BookingRow)
  | confirmed (bookingId : ℕ) (booking : BookingRow)
  | cancelled (bookingId : ℕ) (booking : BookingRow)
  | expired (rows : Option (BookingRow × Option SeatRow))
deriving DecidableEq, Repr

end ScalableBooking.Booking
