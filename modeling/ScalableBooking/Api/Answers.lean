import ScalableBooking.Auth.Register
import ScalableBooking.Booking.Transactions
import ScalableBooking.Lib.Alone
import ScalableBooking.Lib.Javascript

/-!
# What the ids of a request are answered with

Five routes take an id from the client. Their schemas let every positive safe integer through, and
the columns it is compared with have four bytes. Postgres raises an error for a number that does
not fit, drizzle wraps it, and `errorHandler` knows nothing of it: the answer is an internal error,
where an id without a row is answered with the 404 of the route. The `version` of a seat has four
bytes as well, and the `UPDATE` that counts it past the largest of them fails in the same way.

A request is looked at alone, on any tables and without a fault. It is answered as it should be
exactly if its id fits into the column and the rows that go with the one it names are in step
(`wellAnswered_iff`).
-/

namespace ScalableBooking.Api

open Booking ReadCommitted

/-! ### Ids -/

/-- A number of JavaScript. -/
inductive Number where
  | nan
  | infinity (negative : Bool)
  | finite (x : Rat)
deriving DecidableEq

/-- `Number.MAX_SAFE_INTEGER`. -/
def maxSafeInteger : ℕ := 2 ^ 53 - 1

/-- A positive safe integer. -/
structure Id where
  val : ℕ
  pos : 0 < val
  safe : val ≤ maxSafeInteger

/-- `Number(value)`. -/
def toNumber (js : Javascript.Builtins Number) :
    Option (Javascript.Json Number) → Except Javascript.Exception Number
  | none => .ok .nan
  | some .null => .ok (.finite 0)
  | some (.bool b) => .ok (.finite (if b then 1 else 0))
  | some (.number n) => .ok n
  | some (.string s) => .ok (js.toNumber s)
  | some value => (value.toText js).map js.toNumber

/-- `z.coerce.number().int().positive()`. An object that has no text is no number. -/
def idSchema (js : Javascript.Builtins Number) (value : Option (Javascript.Json Number)) :
    Option Id :=
  match toNumber js value with
  | .ok (.finite x) =>
      if h : x.den = 1 ∧ 0 < x.num.toNat ∧ x.num.toNat ≤ maxSafeInteger then
        some ⟨x.num.toNat, h.2.1, h.2.2⟩
      else none
  | _ => none

/-- Every id gets through. -/
theorem idSchema_number (js : Javascript.Builtins Number) (id : Id) :
    idSchema js (some (.number (.finite id.val))) = some id := by
  obtain ⟨n, hpos, hsafe⟩ := id
  simp [idSchema, toNumber, hpos, hsafe]

/-- The largest `integer` of Postgres. -/
def maxInteger : ℕ := 2 ^ 31 - 1

/-! ### Answers -/

/-- The last branch of `errorHandler`, for every error that is no `AppError` and has no status. -/
def internalError : Auth.Reply := ⟨500, "INTERNAL_SERVER_ERROR", "Something went wrong"⟩

/-- The answer to an error of the booking module. -/
def errorReply (e : BookingError) : Auth.Reply :=
  match e.app, e.message with
  | some (statusCode, code), some message => Auth.errorHandler (.app message statusCode code)
  | _, _ => internalError

/-- The error of a query with a number that does not fit into its column. -/
def outOfRange : Auth.Thrown := .drizzleQuery (.database "22003")

example : Auth.errorHandler outOfRange = internalError := rfl

/-! ### The catalog -/

/-- A row of `events`. -/
structure EventRow where
  venueId : ℕ
  name : String
  startsAt : ℕ
  status : String
  createdAt : ℕ

/-- A row of `seats`, as the catalog shows it. -/
structure SeatEntry where
  id : ℕ
  eventId : ℕ
  sectionName : String
  rowLabel : String
  seatNumber : ℕ
  status : SeatStatus
  version : ℕ
  createdAt : ℕ

/-- The tables of the catalog, and the order of seats by section, row and number under the collation
of the database. -/
structure Catalog where
  events : ℕ → Option EventRow
  seats : List SeatEntry
  le : SeatEntry → SeatEntry → Bool

namespace Catalog

/-- `findEventById`. -/
def findEventById (c : Catalog) (eventId : ℕ) : Except Auth.Thrown (Option EventRow) :=
  if eventId ≤ maxInteger then .ok (c.events eventId) else .error outOfRange

/-- `listSeatsForEvent` of the repository. -/
def listSeatsForEventQuery (c : Catalog) (eventId : ℕ) (status : Option SeatStatus)
    (limit : Option ℕ) : Except Auth.Thrown (List SeatEntry) :=
  if eventId ≤ maxInteger then
    let rows := c.seats.filter fun seat =>
      seat.eventId = eventId ∧ status.all fun status => seat.status = status
    let sorted := rows.mergeSort c.le
    -- a limit of 0 is falsy, and no `LIMIT`
    .ok (match limit with
      | none | some 0 => sorted
      | some n => sorted.take n)
  else .error outOfRange

/-- `EventNotFoundError`. -/
def eventNotFound (eventId : ℕ) : Auth.Thrown :=
  .app s!"Event {eventId} not found" 404 "EVENT_NOT_FOUND"

/-- `listSeatsForEvent`. -/
def listSeatsForEvent (c : Catalog) (eventId : ℕ) (status : Option SeatStatus)
    (limit : Option ℕ) : Except Auth.Thrown (List SeatEntry) := do
  match ← c.findEventById eventId with
  | none => throw (eventNotFound eventId)
  | some _ => c.listSeatsForEventQuery eventId status limit

end Catalog

/-! ### Requests -/

/-- What a client is sent. -/
inductive Body where
  | result (r : Result)
  | booking (bookingId : ℕ) (row : BookingRow)
  | seats (rows : List SeatEntry)

inductive Response where
  | success (status : ℕ) (body : Body)
  | failure (reply : Auth.Reply)

def Response.status : Response → ℕ
  | success status _ => status
  | failure reply => reply.status

/-- The requests with an id, and the accepted query of the last one. -/
inductive Request where
  | reserveSeat (seatId : Id)
  | getBooking (bookingId : Id)
  | confirmBooking (bookingId : Id)
  | cancelBooking (bookingId : Id)
  | listSeatsForEvent (eventId : Id) (status : Option SeatStatus) (limit : Option ℕ)

/-- The id that stands in a key. -/
def rowNumber : RowId → ℕ
  | .seat id | .booking id | .user id => id

/-- The number fits into its column. -/
def fits (k : RowId) : Bool := rowNumber k ≤ maxInteger

/-- The row fits into its table: of a seat, the version. -/
def room : ∀ k : RowId, k.Row → Bool
  | .seat _, seat => seat.version ≤ maxInteger
  | .booking _, _ | .user _, _ => true

/-- The tables that a request finds, and the next number of the bookings. -/
structure Site where
  db : Db backend
  nextId : ℕ
  catalog : Catalog
  fits : ∀ k, (db k).isSome → fits k = true
  room : ∀ k row, db k = some row → room k row = true

/-- The user that the token of a request is signed for, under an id of the table. -/
structure Caller where
  userId : ℕ
  fits : fits (.user userId) = true

/-- What a handler sends when its use case has ended. -/
def respond {α : Type} (status : ℕ) (body : α → Body) : Except BookingError α → Response
  | .ok a => .success status (body a)
  | .error e => .failure (errorReply e)

/-- The program of a handler can lead to the answer, if nothing else runs and there is no fault. -/
def CanAnswer {α : Type} (site : Site) (code : Prog backend α) (status : ℕ) (body : α → Body)
    (response : Response) : Prop :=
  ∃ o, CanEnd (code.guard fits room) site.db site.nextId o ∧ response = respond status body o

namespace Request

/-- The number that the request has for an id. -/
def number : Request → ℕ
  | reserveSeat id | getBooking id | confirmBooking id | cancelBooking id
  | listSeatsForEvent id _ _ => id.val

variable (env : Env) (site : Site) (caller : Caller)

/-- The request can be answered so. -/
def CanGet : Request → Response → Prop
  | reserveSeat id => CanAnswer site (Booking.reserveSeat env id.val caller.userId) 201 .result
  | getBooking id =>
      CanAnswer site (Booking.getBooking id.val caller.userId) 200 fun b => .booking b.1 b.2
  | confirmBooking id => CanAnswer site (Booking.confirmBooking id.val caller.userId) 200 .result
  | cancelBooking id => CanAnswer site (Booking.cancelBooking id.val caller.userId) 200 .result
  | listSeatsForEvent id status limit => fun response =>
      response = match site.catalog.listSeatsForEvent id.val status limit with
        | .ok rows => .success 200 (.seats rows)
        | .error err => .failure (Auth.errorHandler err)

/-- There is a row with the id that the caller may see. -/
def Visible : Request → Prop
  | reserveSeat id => (site.db (.seat id.val)).isSome
  | getBooking id | confirmBooking id | cancelBooking id =>
      ∃ row : BookingRow, site.db (.booking id.val) = some row ∧ row.userId = caller.userId
  | listSeatsForEvent id _ _ => (site.catalog.events id.val).isSome

/-- The 404 of the route. -/
def notFound : Request → Auth.Reply
  | reserveSeat id => ⟨404, "SEAT_NOT_FOUND", s!"Seat {id.val} not found"⟩
  | getBooking id | confirmBooking id | cancelBooking id =>
      ⟨404, "BOOKING_NOT_FOUND", s!"Booking {id.val} not found"⟩
  | listSeatsForEvent id _ _ => ⟨404, "EVENT_NOT_FOUND", s!"Event {id.val} not found"⟩

/-- An answer as it should be. -/
structure WellAnswered (request : Request) (response : Response) : Prop where
  not_found : ¬request.Visible site caller → response = .failure request.notFound
  not_internal : response.status ≠ 500

/-- A booking of the caller in one of the states `from_` has its seat in one of the states
`seatFrom`, and the seat can be counted on. -/
def SeatInStep (bookingId : ℕ) (from_ : List BookingStatus) (seatFrom : List SeatStatus) : Prop :=
  ∀ row : BookingRow, site.db (.booking bookingId) = some row → row.userId = caller.userId →
    row.status ∈ from_ → ∃ seat : SeatRow, site.db (.seat row.seatId) = some seat ∧
      seat.status ∈ seatFrom ∧ seat.version < maxInteger

/-- The rows that go with the one the request names are there: for a seat that can be reserved, the
caller and a number for the booking, and for a booking that can be confirmed or cancelled, its seat
in the state that goes with it. The seat has not come to its last version. -/
def InStep : Request → Prop
  | reserveSeat id => ∀ seat : SeatRow, site.db (.seat id.val) = some seat →
      seat.status = .available → seat.version < maxInteger ∧
        (site.db (.user caller.userId)).isSome ∧ site.db (.booking site.nextId) = none ∧
          fits (.booking site.nextId) = true
  | getBooking _ | listSeatsForEvent _ _ _ => True
  | confirmBooking id => SeatInStep site caller id.val [.pending] [.held]
  | cancelBooking id => SeatInStep site caller id.val [.pending, .confirmed] [.held, .booked]

end Request

/-! ### Programs and their answers -/

section Programs

variable {site : Site} {caller : Caller} {request : Request} {α : Type} {status : ℕ}
  {body : α → Body} {p : Prop}

/-- On the tables `db`, the answer that the rest of the program leads to is as it should be if and
only if `p`. -/
def AnsweredIff (site : Site) (caller : Caller) (request : Request) (status : ℕ) (body : α → Body)
    (p : Prop) (code : Prog backend α) (db : Db backend) (n : ℕ) : Prop :=
  (code.guard fits room).Alone
    (fun a _ _ => request.WellAnswered site caller (.success status (body a)) ↔ p)
    (fun e => request.WellAnswered site caller (.failure (errorReply e)) ↔ p) db n

theorem fits_iff {k : RowId} : fits k = true ↔ rowNumber k ≤ maxInteger := by
  simp [fits]

/-- A seat can be moved as long as its version can be counted on. -/
theorem room_moved {i : ℕ} {seat : SeatRow} {target : SeatStatus} :
    room (.seat i) (seat.moved target) = true ↔ seat.version < maxInteger := by
  rw [room, decide_eq_true_iff, SeatRow.moved]
  exact Nat.succ_le_iff

/-- An internal error is no answer as it should be. -/
theorem Request.not_wellAnswered_internal :
    ¬request.WellAnswered site caller (.failure internalError) :=
  fun h => h.not_internal rfl

/-- A 404 is, for a request without a row. -/
theorem Request.wellAnswered_notFound :
    request.WellAnswered site caller (.failure request.notFound) := by
  refine ⟨fun _ => rfl, ?_⟩
  cases request <;> simp [notFound, Response.status]

/-- Any answer but an internal error is, for a request with a row. -/
theorem Request.wellAnswered_of_visible {response : Response}
    (hvisible : request.Visible site caller) (hstatus : response.status ≠ 500) :
    request.WellAnswered site caller response :=
  ⟨fun hno => absurd hvisible hno, hstatus⟩

theorem errorReply_of_app_none {e : BookingError} (h : e.app = none) :
    errorReply e = internalError := by
  rw [errorReply, h]

/-- No `AppError` is answered as an internal error. -/
theorem status_errorReply {e : BookingError} (h : e.app.isSome) : (errorReply e).status ≠ 500 := by
  cases e <;> simp [BookingError.app] at h <;>
    simp [errorReply, BookingError.app, BookingError.message, Auth.errorHandler]

/-- A request that runs the program is answered, and always as it should be, if and only if `p`. -/
theorem AnsweredIff.answers {code : Prog backend α}
    (h : AnsweredIff site caller request status body p code site.db site.nextId) :
    ((∃ response, CanAnswer site code status body response) ∧
      ∀ response, CanAnswer site code status body response →
        request.WellAnswered site caller response) ↔ p := by
  let Q (o : Except BookingError α) : Prop :=
    request.WellAnswered site caller (respond status body o) ↔ p
  have hQ : (code.guard fits room).Alone (fun a _ _ => Q (.ok a)) (fun e => Q (.error e)) site.db
      site.nextId := h
  obtain ⟨o, ho⟩ :=
    exists_canEnd (.resolved : Booking.Reply) (code.guard fits room) site.db site.nextId
  refine ⟨?_, ?_⟩
  · rintro ⟨-, hall⟩
    exact (hQ.of_canEnd ho).mp (hall _ ⟨o, ho, rfl⟩)
  · intro hp
    refine ⟨⟨_, o, ho, rfl⟩, ?_⟩
    rintro _ ⟨o', ho', rfl⟩
    exact (hQ.of_canEnd ho').mpr hp

/-- The first query of a program has the id of the request. If it does not fit, that is the end. -/
theorem AnsweredIff.select {k : RowId} {cond : k.Row → Bool} {next : Option k.Row → Prog backend α}
    (hnumber : rowNumber k = request.number) (hp : p → request.number ≤ maxInteger)
    (h : request.number ≤ maxInteger → AnsweredIff site caller request status body p
      (next ((site.db k).filter cond)) site.db site.nextId) :
    AnsweredIff site caller request status body p (.select k cond next) site.db site.nextId := by
  rw [AnsweredIff, Prog.guard]
  split
  · rename_i hfits
    refine h ?_
    rw [← hnumber]
    exact fits_iff.mp hfits
  · rename_i hno
    refine iff_of_false Request.not_wellAnswered_internal fun hp' => hno (fits_iff.mpr ?_)
    rw [hnumber]
    exact hp hp'

/-- If the row is visible, a rest that throws nothing but `AppError`s leads to a good answer. -/
theorem AnsweredIff.of_visible {code : Prog backend α} {db : Db backend} {n : ℕ}
    (hvisible : request.Visible site caller) (hp : p) (hstatus : status ≠ 500)
    (h : (code.guard fits room).Alone (fun _ _ _ => True)
      (fun e : BookingError => e.app.isSome) db n) :
    AnsweredIff site caller request status body p code db n := by
  refine Prog.Alone.mono ?_ ?_ h
  · intro a _ _ _
    exact iff_of_true (Request.wellAnswered_of_visible hvisible hstatus) hp
  · intro e he
    exact iff_of_true (Request.wellAnswered_of_visible hvisible (status_errorReply he)) hp

/-- A transaction. -/
theorem AnsweredIff.transaction {β : Type} {tx : Tx backend β} {next : β → Prog backend α}
    {db : Db backend} {n : ℕ} (h : ∀ start, (tx.guard fits room).Alone start
      (fun b => AnsweredIff site caller request status body p (next b))
      (fun e => request.WellAnswered site caller (.failure (errorReply e)) ↔ p) db n) :
    AnsweredIff site caller request status body p (.transaction tx next) db n :=
  h

end Programs

section Routes

variable {env : Env} {site : Site} {caller : Caller} {id : Id}

theorem getBooking_answered :
    AnsweredIff site caller (.getBooking id) 200 (fun b => .booking b.1 b.2) (id.val ≤ maxInteger)
      (Booking.getBooking id.val caller.userId) site.db site.nextId := by
  refine .select rfl (fun h => h) ?_
  intro hid
  cases hrow : (site.db (.booking id.val)).filter
      fun row => decide (row.userId = caller.userId) with
  | none => exact iff_of_true Request.wellAnswered_notFound hid
  | some row =>
    obtain ⟨hbooking, hown⟩ := Option.filter_eq_some_iff.mp hrow
    exact .of_visible ⟨row, hbooking, by simpa using hown⟩ hid (by decide) trivial

/-- A transaction that starts from the booking `b`, on its own and on tables with narrow columns. If
the seat is not as expected, it fails with an error that is no `AppError`. -/
def SettlesAlone {α : Type} (site : Site) (b : ℕ) (from_ : List BookingStatus)
    (seatFrom : List SeatStatus) (tx : Tx backend (Option α)) : Prop :=
  ∀ (start : ℕ) (K : Option α → Db backend → ℕ → Prop) (E : BookingError → Prop),
    fits (.booking b) = true →
    ((∀ row : BookingRow, site.db (.booking b) = some row → row.status ∉ from_) →
      K none site.db site.nextId) →
    (∀ row : BookingRow, site.db (.booking b) = some row → row.status ∈ from_ →
      (∀ seat : SeatRow, site.db (.seat row.seatId) = some seat → seat.status ∈ seatFrom →
        ¬seat.version < maxInteger) → ∀ e : BookingError, e.app = none → E e) →
    (∀ (row : BookingRow) (seat : SeatRow), site.db (.booking b) = some row → row.status ∈ from_ →
      site.db (.seat row.seatId) = some seat → seat.status ∈ seatFrom →
        seat.version < maxInteger → ∀ a db', K (some a) db' site.nextId) →
    (tx.guard fits room).Alone start K E site.db site.nextId

theorem settlesAlone {α : Type} {b : ℕ} {from_ : List BookingStatus}
    {set : ℕ → BookingRow → BookingRow} {seatFrom : List SeatStatus} {target : SeatStatus}
    {rest : Option BookingRow → Tx backend (Option α)}
    {next : BookingRow → Option SeatRow → Tx backend (Option α)}
    {v : BookingRow → SeatRow → α} {e : BookingRow → BookingError}
    (hset : ∀ t (booking : BookingRow), (set t booking).seatId = booking.seatId)
    (hrest : rest none = .ret none)
    (hrest' : ∀ row, rest (some row) = (updateSeat seatFrom target row.seatId).bind (next row))
    (hnext : ∀ row seat, next row (some seat) = .ret (some (v row seat)))
    (hlost : ∀ row, next row none = .fail (e row)) (happ : ∀ row, (e row).app = none) :
    SettlesAlone site b from_ seatFrom
      (.now fun t => (updateBooking b from_ (set t)).bind rest) := by
  intro start K E hfits hnone herr h t
  simp only
  rw [Tx.guard_bind, Tx.alone_bind]
  simp only [updateBooking, Tx.guard, if_pos hfits, Tx.Alone]
  cases hrow : (site.db (.booking b)).filter fun row => decide (row.status ∈ from_) with
  | none =>
    -- the booking is in another state
    simp only [Option.all_none, if_true, Tx.guard, Tx.Alone, hrest]
    refine hnone ?_
    intro booking hbooking
    simpa [hbooking, Option.filter_some] using hrow
  | some booking =>
    obtain ⟨hbooking, hstatus⟩ := Option.filter_eq_some_iff.mp hrow
    rw [decide_eq_true_eq] at hstatus
    simp only [Option.all_some, room, if_true, Tx.Alone]
    rw [hrest', Tx.guard_bind, Tx.alone_bind, hset]
    simp only [updateSeat, Tx.guard]
    split
    · simp only [Tx.Alone]
      rw [Function.update_of_ne (by simp)]
      cases hseat :
        (site.db (.seat booking.seatId)).filter fun row => decide (row.status ∈ seatFrom) with
      | none =>
        simp only [Option.all_none, if_true, Tx.guard, Tx.Alone, hlost]
        refine herr booking hbooking hstatus ?_ _ (happ _)
        intro seat hs hseatStatus
        simp [hs, Option.filter_some, hseatStatus] at hseat
      | some seat =>
        obtain ⟨hs, hseatStatus⟩ := Option.filter_eq_some_iff.mp hseat
        rw [decide_eq_true_eq] at hseatStatus
        have hroom : room (.seat booking.seatId) (seat.moved target) = true ↔
            seat.version < maxInteger := room_moved
        by_cases hversion : seat.version < maxInteger
        · simp only [Option.all_some, SeatRow.moved] at hroom ⊢
          simp only [hroom.mpr hversion, if_true, Tx.guard, Tx.Alone, hnext]
          exact h booking seat hbooking hstatus hs hseatStatus hversion _ _
        · -- the version cannot be counted on, and the statement fails
          simp only [Option.all_some, SeatRow.moved] at hroom ⊢
          rw [if_neg fun h => hversion (hroom.mp h)]
          refine herr booking hbooking hstatus ?_ _ rfl
          intro seat' hs' _
          rw [hs] at hs'
          cases hs'
          exact hversion
    · rename_i hno
      -- there is no seat with such a number
      refine herr booking hbooking hstatus ?_ _ rfl
      intro seat hs
      exact absurd (site.fits (.seat booking.seatId) (by rw [hs]; rfl)) hno

/-- A confirmation or a cancellation: the ownership check, the transaction, and what comes after. -/
theorem settling_answered {request : Request} {from_ : List BookingStatus}
    {seatFrom : List SeatStatus} {next : Option BookingRow → Prog backend Result}
    {tx : Tx backend (Option BookingRow)} {after : Option BookingRow → Prog backend Result}
    (hnext : next none = .fail (.bookingNotFound id.val))
    (hnext' : ∀ row, next (some row) = .transaction tx after) (hnumber : request.number = id.val)
    (hvisible : request.Visible site caller ↔
      ∃ row : BookingRow, site.db (.booking id.val) = some row ∧ row.userId = caller.userId)
    (hnotFound : errorReply (.bookingNotFound id.val) = request.notFound)
    (htx : SettlesAlone site id.val from_ seatFrom tx)
    (hafter : fits (.booking id.val) = true → ∀ o db n, ((after o).guard fits room).Alone
      (fun _ _ _ => True) (fun e : BookingError => e.app.isSome) db n) :
    AnsweredIff site caller request 200 .result
      (request.number ≤ maxInteger ∧ Request.SeatInStep site caller id.val from_ seatFrom)
      (.select (.booking id.val) (fun row => decide (row.userId = caller.userId)) next)
      site.db site.nextId := by
  refine .select hnumber.symm And.left ?_
  intro hid
  have hfits : fits (.booking id.val) = true := by
    rw [fits_iff, ← hnumber]
    exact hid
  cases hrow : (site.db (.booking id.val)).filter
      fun row => decide (row.userId = caller.userId) with
  | none =>
    have hstep : Request.SeatInStep site caller id.val from_ seatFrom := by
      intro row hbooking hown
      simp [hbooking, Option.filter_some, hown] at hrow
    rw [hnext]
    refine iff_of_true ?_ ⟨hid, hstep⟩
    rw [hnotFound]
    exact Request.wellAnswered_notFound
  | some row =>
    obtain ⟨hbooking, hown⟩ := Option.filter_eq_some_iff.mp hrow
    rw [decide_eq_true_eq] at hown
    have hseen : request.Visible site caller := hvisible.mpr ⟨row, hbooking, hown⟩
    rw [hnext']
    refine .transaction ?_
    intro start
    refine htx start _ _ hfits ?_ ?_ ?_
    · intro hstatus
      have hstep : Request.SeatInStep site caller id.val from_ seatFrom :=
        fun row' hrow' _ hfrom => absurd hfrom (hstatus row' hrow')
      exact .of_visible hseen ⟨hid, hstep⟩ (by decide) (hafter hfits none _ _)
    · intro row' hrow' hfrom hseat e he
      rw [hbooking] at hrow'
      cases hrow'
      -- the seat is out of step, and the error is internal
      rw [errorReply_of_app_none he]
      refine iff_of_false Request.not_wellAnswered_internal ?_
      rintro ⟨-, hstep⟩
      obtain ⟨seat, hs, hseatFrom, hversion⟩ := hstep row hbooking hown hfrom
      exact hseat seat hs hseatFrom hversion
    · intro row' seat hrow' hfrom hs hseatFrom hversion a db'
      have hstep : Request.SeatInStep site caller id.val from_ seatFrom := by
        intro row'' hrow'' _ _
        rw [hrow'] at hrow''
        cases hrow''
        exact ⟨seat, hs, hseatFrom, hversion⟩
      exact .of_visible hseen ⟨hid, hstep⟩ (by decide) (hafter hfits _ _ _)

theorem confirmBooking_answered :
    AnsweredIff site caller (.confirmBooking id) 200 .result
      (id.val ≤ maxInteger ∧ (Request.confirmBooking id).InStep site caller)
      (Booking.confirmBooking id.val caller.userId) site.db site.nextId := by
  refine settling_answered rfl (fun _ => rfl) rfl Iff.rfl rfl ?_ ?_
  · exact settlesAlone (v := fun booking _ => booking)
      (e := fun row => .confirmDrift id.val row.seatId) (fun _ _ => rfl) rfl (fun _ => rfl)
      (fun _ _ => rfl) (fun _ => rfl) (fun _ => rfl)
  · intro hfits o db n
    cases o with
    | none =>
      simp only [Prog.bind_eq, Prog.bind, findBooking, Prog.guard, if_pos hfits]
      exact rfl
    | some row =>
      exact fun _ _ => trivial

theorem cancelBooking_answered :
    AnsweredIff site caller (.cancelBooking id) 200 .result
      (id.val ≤ maxInteger ∧ (Request.cancelBooking id).InStep site caller)
      (Booking.cancelBooking id.val caller.userId) site.db site.nextId := by
  refine settling_answered rfl (fun _ => rfl) rfl Iff.rfl rfl ?_ ?_
  · exact settlesAlone (v := fun booking _ => booking)
      (e := fun row => .cancelDrift id.val row.seatId) (fun _ _ => rfl) rfl (fun _ => rfl)
      (fun _ _ => rfl) (fun _ => rfl) (fun _ => rfl)
  · intro hfits o db n
    cases o with
    | none =>
      simp only [Prog.bind_eq, Prog.bind, findBooking, Prog.guard, if_pos hfits]
      exact rfl
    | some row =>
      -- the job may be there or not
      intro r
      cases r with
      | resolved => exact fun _ _ _ => trivial
      | absent => exact fun _ _ => trivial
      | rejected => exact fun _ _ => trivial

theorem reserveSeat_answered :
    AnsweredIff site caller (.reserveSeat id) 201 .result
      (id.val ≤ maxInteger ∧ (Request.reserveSeat id).InStep site caller)
      (Booking.reserveSeat env id.val caller.userId) site.db site.nextId := by
  refine .select rfl And.left ?_
  intro hid
  have hfits : fits (.seat id.val) = true := fits_iff.mpr hid
  cases hrow : (site.db (.seat id.val)).filter fun _ => true with
  | none =>
    refine iff_of_true Request.wellAnswered_notFound ⟨hid, ?_⟩
    intro seat hseat
    simp [hseat, Option.filter_some] at hrow
  | some seat =>
    obtain ⟨hseat, -⟩ := Option.filter_eq_some_iff.mp hrow
    have hseen : (Request.reserveSeat id).Visible site caller := by
      simp only [Request.Visible, hseat]
      rfl
    intro now start
    simp only [reserveSeatTx, reserveSeatRow, updateSeat, Tx.bind_eq, Tx.bind, Tx.guard,
      if_pos hfits, Tx.Alone]
    have hrefs : [RowId.seat id.val, .user caller.userId].all fits = true := by
      simp [hfits, caller.fits]
    cases havailable : (site.db (.seat id.val)).filter fun row =>
        decide (row.status ∈ [SeatStatus.available]) with
    | none =>
      refine iff_of_true (Request.wellAnswered_of_visible hseen (status_errorReply rfl)) ⟨hid, ?_⟩
      intro seat' hseat' hstatus
      simp [hseat', Option.filter_some, hstatus] at havailable
    | some free =>
      obtain ⟨hfree, hstatus⟩ := Option.filter_eq_some_iff.mp havailable
      have hstep : (Request.reserveSeat id).InStep site caller ↔ free.version < maxInteger ∧
          (site.db (.user caller.userId)).isSome ∧ site.db (.booking site.nextId) = none ∧
            fits (.booking site.nextId) = true := by
        refine ⟨fun h => h free hfree (by simpa using hstatus), ?_⟩
        intro h free' hfree' _
        rw [hfree] at hfree'
        cases hfree'
        exact h
      -- the booking is inserted if its number is new and the caller is there
      have hkeys (row : SeatRow) :
          ((Function.update site.db (.seat id.val) (some row) (.booking site.nextId)).isNone ∧
            ∀ k ∈ [RowId.seat id.val, .user caller.userId],
              (Function.update site.db (.seat id.val) (some row) k).isSome) ↔
          site.db (.booking site.nextId) = none ∧ (site.db (.user caller.userId)).isSome := by
        simp
      have hroom : room (.seat id.val) (free.moved .held) = true ↔ free.version < maxInteger :=
        room_moved
      simp only [Option.all_some, SeatRow.moved] at hroom ⊢
      by_cases hversion : free.version < maxInteger
      · simp only [hroom.mpr hversion, if_true, if_pos hrefs, Tx.Alone, hkeys, hstep]
        split
        · rename_i hinsert
          split
          · rename_i hnumber
            rw [Bool.and_eq_true] at hnumber
            -- whatever the queue and the broker reply
            intro _ _ _ _
            exact iff_of_true (Request.wellAnswered_of_visible hseen (by simp [Response.status]))
              ⟨hid, hversion, hinsert.2, hinsert.1, hnumber.1⟩
          · rename_i hnumber
            refine iff_of_false Request.not_wellAnswered_internal fun h => hnumber ?_
            rw [Bool.and_eq_true]
            exact ⟨h.2.2.2.2, rfl⟩
        · rename_i hinsert
          exact iff_of_false Request.not_wellAnswered_internal
            fun h => hinsert ⟨h.2.2.2.1, h.2.2.1⟩
      · -- the `UPDATE` of the seat fails
        rw [if_neg fun h => hversion (hroom.mp h)]
        exact iff_of_false Request.not_wellAnswered_internal fun h => hversion (hstep.mp h.2).1

/-- The seats of an event are answered with at once. -/
theorem listSeatsForEvent_answered {status : Option SeatStatus} {limit : Option ℕ}
    {response : Response}
    (h : (Request.listSeatsForEvent id status limit).CanGet env site caller response) :
    (Request.listSeatsForEvent id status limit).WellAnswered site caller response ↔
      id.val ≤ maxInteger := by
  rw [Request.CanGet] at h
  subst h
  simp only [Catalog.listSeatsForEvent, Catalog.findEventById, Catalog.listSeatsForEventQuery]
  by_cases hid : id.val ≤ maxInteger
  · refine iff_of_true ?_ hid
    simp only [if_pos hid]
    -- the id fits, so the event is looked up
    cases hevent : site.catalog.events id.val with
    | none => exact Request.wellAnswered_notFound
    | some event =>
      have hseen : (Request.listSeatsForEvent id status limit).Visible site caller := by
        simp [Request.Visible, hevent]
      have hstatus : (200 : ℕ) ≠ 500 := by decide
      exact Request.wellAnswered_of_visible hseen hstatus
  · -- the query raises an error that no branch of the handler knows
    refine iff_of_false ?_ hid
    simp only [if_neg hid]
    exact Request.not_wellAnswered_internal

end Routes

/-- Alone, on any tables and without a fault, a request is answered, and always as it should be, if
and only if its id fits into the column and the rows that go with the one it names are in step. -/
theorem wellAnswered_iff (env : Env) (site : Site) (caller : Caller) (request : Request) :
    ((∃ response, request.CanGet env site caller response) ∧
      ∀ response, request.CanGet env site caller response →
        request.WellAnswered site caller response) ↔
    request.number ≤ maxInteger ∧ request.InStep site caller := by
  cases request with
  | reserveSeat id => exact reserveSeat_answered.answers
  | getBooking id => exact getBooking_answered.answers.trans (and_iff_left trivial).symm
  | confirmBooking id => exact confirmBooking_answered.answers
  | cancelBooking id => exact cancelBooking_answered.answers
  | listSeatsForEvent id status limit =>
    refine ⟨?_, ?_⟩
    · rintro ⟨⟨response, h⟩, hall⟩
      exact ⟨(listSeatsForEvent_answered h).mp (hall response h), trivial⟩
    · rintro ⟨hid, -⟩
      exact ⟨⟨_, rfl⟩, fun response h => (listSeatsForEvent_answered h).mpr hid⟩

/-! ### An id that does not fit -/

/-- One seat and one user, and no event. -/
def smallSite : Site where
  db := oneSeat
  nextId := 1
  catalog := { events := fun _ => none, seats := [], le := fun _ _ => true }
  fits k := by
    cases k with
    | seat i =>
      simp only [oneSeat, Option.isSome_ite]
      rintro rfl
      rfl
    | booking i => simp [oneSeat]
    | user i =>
      simp only [oneSeat, Option.isSome_ite]
      rintro rfl
      rfl
  room k row hrow := by
    cases k with
    | seat i =>
      obtain ⟨-, hrow⟩ := Option.ite_none_right_eq_some.mp hrow
      rw [← Option.some.inj hrow]
      rfl
    | booking i => rfl
    | user i => rfl

/-- The user of it. -/
def smallCaller : Caller := ⟨7, by decide⟩

/-- `3e9`, which the schemas let through. -/
def threeBillion : Id := ⟨3000000000, by decide, by decide⟩

/-- A booking with this number cannot be there, and the answer is an internal error. -/
theorem internalError_threeBillion :
    (Request.getBooking threeBillion).CanGet Env.default smallSite smallCaller
        (.failure internalError) ∧
      ¬(Request.getBooking threeBillion).Visible smallSite smallCaller ∧
      ¬(Request.getBooking threeBillion).WellAnswered smallSite smallCaller
        (.failure internalError) := by
  have hrun : (State.initial oneSeat 1 0 fun _ : Unit =>
      (getBooking threeBillion.val smallCaller.userId).guard fits room).run [] = some _ := rfl
  refine ⟨⟨.error .infrastructure, ⟨0, [], _, by simp [NoFault], hrun, rfl⟩, rfl⟩, ?_, ?_⟩
  · rintro ⟨row, hrow, -⟩
    cases hrow
  · exact fun h => h.not_internal rfl

end ScalableBooking.Api
