import Mathlib.Data.List.Nodup
import Mathlib.Logic.Function.Basic
import ScalableBooking.Booking.Types

/-!
# The rooms of the live channel

`seat-broadcaster.ts` and `liveSeatsHandler`: which sockets of a backend process watch which
event, and to whom a seat update is sent. Numbers are those of the language, up to the equality
by which a `Map` finds its keys.
-/

namespace ScalableBooking.Realtime

open Booking (SeatStatus)

/-- `SeatUpdateMessage`. Its `type` is always `seat.updated`. -/
structure SeatUpdateMessage (N : Type) where
  seatId : N
  eventId : N
  status : SeatStatus
deriving DecidableEq, Repr

/-- `socket.readyState`, in the order of its numbers. -/
inductive ReadyState where
  | connecting
  | opened
  | closing
  | closed
deriving DecidableEq, Repr

/-- A set of sockets, in the order in which they came. -/
structure Room (S : Type) where
  sockets : List S
  nodup : sockets.Nodup

namespace Room

variable {S : Type} [DecidableEq S]

omit [DecidableEq S] in
/-- `new Set()`. -/
def empty : Room S where
  sockets := []
  nodup := List.nodup_nil

/-- `Set.add`. -/
def add (room : Room S) (socket : S) : Room S where
  sockets := if socket ∈ room.sockets then room.sockets else room.sockets ++ [socket]
  nodup := by
    split
    · exact room.nodup
    · rename_i hsocket
      refine List.nodup_append.mpr ⟨room.nodup, List.nodup_singleton socket, ?_⟩
      rintro a ha b hb rfl
      exact hsocket (List.mem_singleton.mp hb ▸ ha)

/-- `Set.delete`. -/
def delete (room : Room S) (socket : S) : Room S where
  sockets := room.sockets.erase socket
  nodup := room.nodup.erase socket

theorem mem_add {room : Room S} {socket socket' : S} :
    socket' ∈ (room.add socket).sockets ↔ socket' = socket ∨ socket' ∈ room.sockets := by
  simp only [add]
  split
  · rename_i hsocket
    exact (or_iff_right_of_imp fun heq => heq ▸ hsocket).symm
  · rw [List.mem_append, List.mem_singleton, or_comm]

theorem mem_delete {room : Room S} {socket socket' : S} :
    socket' ∈ (room.delete socket).sockets ↔ socket' ≠ socket ∧ socket' ∈ room.sockets :=
  room.nodup.mem_erase_iff

end Room

/-- The rooms of a process. -/
abbrev Rooms (N S : Type) := N → Option (Room S)

namespace Rooms

variable {N S : Type} [DecidableEq N] [DecidableEq S]

/-- `subscribe`. -/
def subscribe (rooms : Rooms N S) (eventId : N) (socket : S) : Rooms N S :=
  Function.update rooms eventId (some (((rooms eventId).getD .empty).add socket))

/-- `unsubscribe`. -/
def unsubscribe (rooms : Rooms N S) (eventId : N) (socket : S) : Rooms N S :=
  match rooms eventId with
  | none => rooms
  | some room =>
      let room := room.delete socket
      Function.update rooms eventId (if room.sockets.isEmpty then none else some room)

omit [DecidableEq N] [DecidableEq S] in
/-- `broadcastSeatUpdate`: the sockets that the message is sent to, one after another. -/
def broadcastSeatUpdate (rooms : Rooms N S) (readyState : S → ReadyState)
    (msg : SeatUpdateMessage N) : List S :=
  match rooms msg.eventId with
  | none => []
  | some room => room.sockets.filter fun socket => readyState socket = .opened

/-- The socket watches the event. -/
def Watches (rooms : Rooms N S) (eventId : N) (socket : S) : Prop :=
  ∃ room, rooms eventId = some room ∧ socket ∈ room.sockets

omit [DecidableEq N] [DecidableEq S] in
/-- A message goes to the sockets that watch its event and are open. -/
theorem mem_broadcastSeatUpdate {rooms : Rooms N S} {readyState : S → ReadyState}
    {msg : SeatUpdateMessage N} {socket : S} :
    socket ∈ rooms.broadcastSeatUpdate readyState msg ↔
      rooms.Watches msg.eventId socket ∧ readyState socket = .opened := by
  rw [broadcastSeatUpdate, Watches]
  cases hroom : rooms msg.eventId with
  | none => simp
  | some room => simp

omit [DecidableEq N] [DecidableEq S] in
/-- No socket is sent a message twice. -/
theorem nodup_broadcastSeatUpdate (rooms : Rooms N S) (readyState : S → ReadyState)
    (msg : SeatUpdateMessage N) : (rooms.broadcastSeatUpdate readyState msg).Nodup := by
  rw [broadcastSeatUpdate]
  cases rooms msg.eventId with
  | none => exact List.nodup_nil
  | some room => exact room.nodup.filter _

theorem watches_subscribe_iff {rooms : Rooms N S} {eventId eventId' : N} {socket socket' : S} :
    (rooms.subscribe eventId socket).Watches eventId' socket' ↔
      eventId' = eventId ∧ socket' = socket ∨ rooms.Watches eventId' socket' := by
  by_cases heq : eventId' = eventId
  · subst heq
    simp only [Watches, subscribe, Function.update_self, Option.some.injEq, exists_eq_left',
      Room.mem_add, true_and]
    cases rooms eventId' with
    | none => simp [Room.empty]
    | some room => simp
  · simp only [Watches, subscribe, Function.update_of_ne heq, heq, false_and, false_or]

theorem watches_unsubscribe_iff {rooms : Rooms N S} {eventId eventId' : N} {socket socket' : S} :
    (rooms.unsubscribe eventId socket).Watches eventId' socket' ↔
      rooms.Watches eventId' socket' ∧ ¬(eventId' = eventId ∧ socket' = socket) := by
  by_cases heq : eventId' = eventId
  · subst heq
    cases hroom : rooms eventId' with
    | none => simp [Watches, unsubscribe, hroom]
    | some room =>
      simp only [Watches, unsubscribe, hroom, Function.update_self, Option.some.injEq,
        exists_eq_left', true_and]
      rw [and_comm, ← Room.mem_delete]
      by_cases hempty : (room.delete socket).sockets = []
      · simp [hempty]
      · simp [hempty]
  · have hother : rooms.unsubscribe eventId socket eventId' = rooms eventId' := by
      cases hroom : rooms eventId with
      | none => simp only [unsubscribe, hroom]
      | some room => simp only [unsubscribe, hroom, Function.update_of_ne heq]
    simp [Watches, hother, heq]

theorem watches_subscribe (rooms : Rooms N S) (eventId : N) (socket : S) :
    (rooms.subscribe eventId socket).Watches eventId socket :=
  watches_subscribe_iff.mpr (.inl ⟨rfl, rfl⟩)

/-- A socket that goes leaves the others in the room. -/
theorem watches_unsubscribe {rooms : Rooms N S} {eventId : N} {socket socket' : S}
    (h : rooms.Watches eventId socket) (hne : socket ≠ socket') :
    (rooms.unsubscribe eventId socket').Watches eventId socket :=
  watches_unsubscribe_iff.mpr ⟨h, fun heq => hne heq.2⟩

/-- No event is kept without a socket. -/
def NoneEmpty (rooms : Rooms N S) : Prop :=
  ∀ eventId room, rooms eventId = some room → room.sockets ≠ []

theorem NoneEmpty.subscribe {rooms : Rooms N S} (h : rooms.NoneEmpty) (eventId : N) (socket : S) :
    (rooms.subscribe eventId socket).NoneEmpty := by
  intro eventId' room hroom
  by_cases heq : eventId' = eventId
  · subst heq
    rw [Rooms.subscribe, Function.update_self] at hroom
    cases hroom
    exact List.ne_nil_of_mem (Room.mem_add.mpr (.inl rfl))
  · rw [Rooms.subscribe, Function.update_of_ne heq] at hroom
    exact h eventId' room hroom

theorem NoneEmpty.unsubscribe {rooms : Rooms N S} (h : rooms.NoneEmpty) (eventId : N)
    (socket : S) : (rooms.unsubscribe eventId socket).NoneEmpty := by
  cases hevent : rooms eventId with
  | none => simpa only [Rooms.unsubscribe, hevent] using h
  | some room =>
    intro eventId' room' hroom'
    simp only [Rooms.unsubscribe, hevent] at hroom'
    by_cases heq : eventId' = eventId
    · subst heq
      rw [Function.update_self] at hroom'
      obtain ⟨hsockets, hroom'⟩ := Option.ite_none_left_eq_some.mp hroom'
      cases hroom'
      simpa using hsockets
    · rw [Function.update_of_ne heq] at hroom'
      exact h eventId' room' hroom'

end Rooms

end ScalableBooking.Realtime
