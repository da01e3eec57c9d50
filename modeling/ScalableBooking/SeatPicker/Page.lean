import ScalableBooking.Realtime.Broadcaster

/-!
# The seat map of one page

`SeatPickerPage` with `useLiveSeats`, for as long as it is mounted, and the backend process that
its sockets are connected to. The page asks for its seats once, and shows what the answer says and
what has been pushed to it since. The socket is told of a change when the consumer of the changes
comes to it, which it does in the order of the commits.

A connection that drops takes with it what is still on its way. The page then opens the next
socket, and the server hears of the end of the old one later.
-/

namespace ScalableBooking.SeatPicker

open Booking (SeatStatus)
open Realtime

/-! ### The page -/

/-- What the page uses of a `Seat` that it has loaded. -/
structure Seat (N : Type) where
  id : N
  status : SeatStatus
deriving DecidableEq, Repr

/-- What the page keeps of the seats. -/
structure Page (N : Type) where
  seats : Option (List (Seat N))
  selected : List (Seat N)
deriving DecidableEq, Repr

/-- `MAX_SELECTION`. -/
def maxSelection : ℕ := 8

namespace Page

variable {N : Type} [DecidableEq N]

/-- `handleLiveUpdate`. -/
def handleLiveUpdate (page : Page N) (seatId : N) (status : SeatStatus) : Page N where
  seats := page.seats.map fun prev =>
    prev.map fun s => if s.id = seatId then { s with status } else s
  selected :=
    if status ≠ .available then page.selected.filter fun s => s.id ≠ seatId else page.selected

/-- `toggleSeat`. -/
def toggleSeat (page : Page N) (seat : Seat N) : Page N :=
  if seat.status ≠ .available then page
  else if page.selected.any fun s => s.id = seat.id then
    { page with selected := page.selected.filter fun s => s.id ≠ seat.id }
  else if page.selected.length ≥ maxSelection then page
  else { page with selected := page.selected ++ [seat] }

end Page

/-! ### The page and its server -/

/-- The event that the page shows, and the seats that its request finds. -/
structure View (N : Type) where
  eventId : N
  seatIds : List N

/-- The request for the seats: sent, answered but not yet arrived, or over. -/
inductive Request (N : Type) where
  | sent
  | answered (seats : List (Seat N))
  | settled

/-- The present socket of the page. With `waiting` it is gone, and the timer runs. -/
inductive Connection where
  | connecting
  | opened
  | waiting
deriving DecidableEq, Repr

/-- The seats in the database, the committed changes that the consumer has not come to, the rooms
of the server with the sockets in them, and the page with its request, the number of its present
socket and the messages that are on their way to it. -/
structure State (N : Type) where
  db : N → SeatStatus
  captured : List (SeatUpdateMessage N)
  rooms : Rooms N ℕ
  readyState : ℕ → ReadyState
  page : Page N
  request : Request N
  socket : ℕ
  connection : Connection
  inFlight : List (SeatUpdateMessage N)

/-- A change of a seat is committed. The consumer comes to the next change. The request reads the
database, its response arrives, or it fails. The server accepts the socket, the next message is
delivered, the connection drops, the timer of `useLiveSeats` fires, the server hears of the end of
a socket. The user clicks on a seat. -/
inductive Event (N : Type) where
  | commit (seatId : N) (status : SeatStatus)
  | consume
  | read
  | respond
  | fail
  | accept
  | deliver
  | drop
  | reconnect
  | close (socket : ℕ)
  | click (seat : Seat N)

namespace State

variable {N : Type}

/-- The page has been mounted. -/
def start (db : N → SeatStatus) : State N where
  db
  captured := []
  rooms _ := none
  readyState _ := .connecting
  page := { seats := none, selected := [] }
  request := .sent
  socket := 0
  connection := .connecting
  inFlight := []

variable [DecidableEq N]

/-- One step, if the event can happen. -/
def step (view : View N) (s : State N) : Event N → Option (State N)
  | .commit seatId status =>
      some { s with
        db := Function.update s.db seatId status
        captured := s.captured ++ [⟨seatId, view.eventId, status⟩] }
  | .consume =>
      match s.captured with
      | [] => none
      | msg :: captured =>
          if s.connection = .opened ∧ s.socket ∈ s.rooms.broadcastSeatUpdate s.readyState msg then
            some { s with captured, inFlight := s.inFlight ++ [msg] }
          -- no open socket of this page is in the room, and nothing keeps the message
          else some { s with captured }
  | .read =>
      match s.request with
      | .sent => some { s with request := .answered (view.seatIds.map fun id => ⟨id, s.db id⟩) }
      | _ => none
  | .respond =>
      match s.request with
      | .answered seats =>
          some { s with page := { s.page with seats := some seats }, request := .settled }
      | _ => none
  | .fail =>
      match s.request with
      | .settled => none
      | _ => some { s with request := .settled }
  | .accept =>
      if s.connection = .connecting then
        some { s with
          rooms := s.rooms.subscribe view.eventId s.socket
          readyState := Function.update s.readyState s.socket .opened
          connection := .opened }
      else none
  | .deliver =>
      match s.inFlight with
      | [] => none
      | msg :: inFlight =>
          some { s with page := s.page.handleLiveUpdate msg.seatId msg.status, inFlight }
  | .drop =>
      if s.connection = .waiting then none
      else some { s with connection := .waiting, inFlight := [] }
  | .reconnect =>
      if s.connection = .waiting then
        some { s with connection := .connecting, socket := s.socket + 1 }
      else none
  | .close socket =>
      if (socket < s.socket ∨ s.connection = .waiting) ∧ s.readyState socket = .opened then
        some { s with
          rooms := s.rooms.unsubscribe view.eventId socket
          readyState := Function.update s.readyState socket .closed }
      else none
  | .click seat =>
      match s.page.seats with
      | none => none
      | some seats => if seat ∈ seats then some { s with page := s.page.toggleSeat seat } else none

/-- A run: its events one after another. -/
def run (view : View N) (s : State N) : List (Event N) → Option (State N)
  | [] => some s
  | e :: es => (s.step view e).bind fun s' => s'.run view es

end State

end ScalableBooking.SeatPicker
