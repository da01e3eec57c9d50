import ScalableBooking.Booking.UseCases

/-!
# The seat ledger

What the booking module is for, without tables: every seat is free, or held by one booking, or
booked by one. `Represents` says that the two tables show a ledger, and `SeatAgrees` reads off
what a ledger means for the rows of one seat.

The tables are kept in step with a ledger by one kind of change (`Represents.settle`): a
transaction rewrites one booking and its seat, and the ledger's entry of that seat changes from
free, or from an entry of the same booking, to the one the two new rows stand for.
-/

namespace ScalableBooking.Booking

open ReadCommitted

/-! ### Entries -/

/-- What the ledger says about a seat. -/
inductive Entry where
  | free
  | held (bookingId : ℕ)
  | booked (bookingId : ℕ)
deriving DecidableEq, Repr

/-- The state of all seats. -/
abbrev Ledger := ℕ → Entry

namespace Entry

/-- The booking that has the seat. -/
def owner : Entry → Option ℕ
  | free => none
  | held b | booked b => some b

/-- The status of the seat's row. -/
def seatStatus : Entry → SeatStatus
  | free => .available
  | held _ => .held
  | booked _ => .booked

end Entry

/-- A booking is active while it takes up a seat. -/
def BookingStatus.Active (status : BookingStatus) : Prop := status = .pending ∨ status = .confirmed

instance (status : BookingStatus) : Decidable status.Active :=
  inferInstanceAs (Decidable (_ ∨ _))

/-- The booking `b` stands on the seat `i` with the given status. -/
def Stands (db : Db backend) (b i : ℕ) (status : BookingStatus) : Prop :=
  ∃ row : BookingRow, db (.booking b) = some row ∧ row.seatId = i ∧ row.status = status

/-- The entry that a booking with this status makes for its seat. -/
def Entry.of (b : ℕ) : BookingStatus → Entry
  | .pending => .held b
  | .confirmed => .booked b
  | .cancelled | .expired => .free

theorem Entry.owner_of {b : ℕ} {status : BookingStatus} (h : status.Active) :
    (Entry.of b status).owner = some b := by
  rcases h with rfl | rfl <;> rfl

/-- The entry tells the two active states apart. -/
theorem Entry.of_inj {b : ℕ} {status status' : BookingStatus} (h : status.Active)
    (h' : status'.Active) (heq : Entry.of b status = Entry.of b status') : status = status' := by
  rcases h with rfl | rfl <;> rcases h' with rfl | rfl <;> simp [Entry.of] at heq ⊢

/-! ### Tables that show a ledger -/

/-- The tables show the ledger: a seat's status is the one of its entry, every active booking
has the entry of its seat, and every entry comes from a booking and stands for a seat there
is. -/
structure Represents (db : Db backend) (ledger : Ledger) : Prop where
  seat : ∀ (i : ℕ) (row : SeatRow), db (.seat i) = some row → row.status = (ledger i).seatStatus
  booking : ∀ (b : ℕ) (row : BookingRow), db (.booking b) = some row → row.status.Active →
    ledger row.seatId = Entry.of b row.status
  owner : ∀ i b, (ledger i).owner = some b → (db (.seat i)).isSome ∧
    ∃ row : BookingRow, db (.booking b) = some row ∧ row.seatId = i ∧ row.status.Active

/-- Two bookings that are active on one seat are one booking. -/
theorem Represents.eq_of_active {db : Db backend} {ledger : Ledger} (h : Represents db ledger)
    {b c : ℕ} {row row' : BookingRow} (hb : db (.booking b) = some row)
    (hc : db (.booking c) = some row') (hactive : row.status.Active)
    (hactive' : row'.status.Active) (hseat : row.seatId = row'.seatId) : b = c := by
  have hown : (ledger row.seatId).owner = some b := by
    rw [h.booking b row hb hactive]
    exact Entry.owner_of hactive
  have hown' : (ledger row.seatId).owner = some c := by
    rw [hseat, h.booking c row' hc hactive']
    exact Entry.owner_of hactive'
  -- one seat, one entry, one owner
  rw [hown] at hown'
  exact Option.some.inj hown'

/-- A seat whose row is available has no entry. -/
theorem Represents.free_of_available {db : Db backend} {ledger : Ledger}
    (h : Represents db ledger) {i : ℕ} {seat : SeatRow} (hseat : db (.seat i) = some seat)
    (hstatus : seat.status = .available) : ledger i = .free := by
  have := h.seat i seat hseat
  rw [hstatus] at this
  cases hentry : ledger i with
  | free => rfl
  -- the two other entries would show in the row
  | held b => simp [hentry, Entry.seatStatus] at this
  | booked b => simp [hentry, Entry.seatStatus] at this

/-- The seat of an active booking is there, in the state that goes with the booking's. -/
theorem Represents.seat_of_active {db : Db backend} {ledger : Ledger}
    (h : Represents db ledger) {b : ℕ} {row : BookingRow} (hb : db (.booking b) = some row)
    (hactive : row.status.Active) :
    ∃ seat : SeatRow, db (.seat row.seatId) = some seat ∧
      seat.status = (Entry.of b row.status).seatStatus := by
  have hentry := h.booking b row hb hactive
  have howner : (ledger row.seatId).owner = some b := by
    rw [hentry]
    exact Entry.owner_of hactive
  -- an entry with an owner is only made for a seat there is
  obtain ⟨seat, hseat⟩ := Option.isSome_iff_exists.mp (h.owner _ b howner).1
  refine ⟨seat, hseat, ?_⟩
  rw [h.seat _ seat hseat, hentry]

/-- The tables after a transaction: the row of one booking and the row of its seat are new. -/
def settle (db : Db backend) (b : ℕ) (booking : BookingRow) (seat : SeatRow) : Db backend :=
  Function.update (Function.update db (.booking b) (some booking)) (.seat booking.seatId)
    (some seat)

section Settle

variable {db : Db backend} {b i : ℕ} {booking : BookingRow} {seat : SeatRow}

@[simp] theorem settle_booking_self :
    settle db b booking seat (.booking b) = some booking := by
  simp [settle]

theorem settle_booking_ne {c : ℕ} (hc : c ≠ b) :
    settle db b booking seat (.booking c) = db (.booking c) := by
  simp [settle, hc]

@[simp] theorem settle_seat_self :
    settle db b booking seat (.seat booking.seatId) = some seat := by
  simp [settle]

theorem settle_seat_ne (hi : i ≠ booking.seatId) :
    settle db b booking seat (.seat i) = db (.seat i) := by
  simp [settle, hi]

/-- A booking and its seat are rewritten together. Until then the seat was free and the booking
not active, or the booking had the seat. Then the tables show the ledger with the new entry. -/
theorem Represents.settle {ledger : Ledger} (h : Represents db ledger)
    (hseat : seat.status = (Entry.of b booking.status).seatStatus)
    (howner : ∀ c, (ledger booking.seatId).owner = some c → c = b)
    (hother : ∀ i, (ledger i).owner = some b → i = booking.seatId) :
    Represents (settle db b booking seat)
      (Function.update ledger booking.seatId (Entry.of b booking.status)) where
  seat i row hi := by
    by_cases hs : i = booking.seatId
    · subst hs
      rw [settle_seat_self, Option.some.injEq] at hi
      subst hi
      -- the new row of the seat and the new entry go together
      simpa using hseat
    · rw [settle_seat_ne hs] at hi
      simpa [hs] using h.seat i row hi
  booking c row hc hactive := by
    by_cases hcb : c = b
    · subst hcb
      rw [settle_booking_self, Option.some.injEq] at hc
      subst hc
      simp
    · -- an old row of another booking
      rw [settle_booking_ne hcb] at hc
      have hentry := h.booking c row hc hactive
      -- another active booking is not on this seat
      have hne : row.seatId ≠ booking.seatId := by
        intro heq
        refine hcb (howner c ?_)
        rw [← heq, hentry]
        exact Entry.owner_of hactive
      simpa [hne] using hentry
  owner i c hown := by
    by_cases hi : i = booking.seatId
    · subst hi
      rw [Function.update_self] at hown
      -- the new entry has an owner only if the booking is still active
      cases hstatus : booking.status with
      | pending =>
        simp only [hstatus, Entry.of, Entry.owner, Option.some.injEq] at hown
        subst hown
        exact ⟨by simp, booking, by simp, rfl, .inl hstatus⟩
      | confirmed =>
        simp only [hstatus, Entry.of, Entry.owner, Option.some.injEq] at hown
        subst hown
        exact ⟨by simp, booking, by simp, rfl, .inr hstatus⟩
      | cancelled => simp [hstatus, Entry.of, Entry.owner] at hown
      | expired => simp [hstatus, Entry.of, Entry.owner] at hown
    · rw [Function.update_of_ne hi] at hown
      obtain ⟨hsome, row, hrow, hrest⟩ := h.owner i c hown
      have hcb : c ≠ b := by
        -- `b` stood on this seat at most, so the entry of another seat is not its own
        rintro rfl
        exact hi (hother i hown)
      rw [settle_seat_ne hi, settle_booking_ne hcb]
      exact ⟨hsome, row, hrow, hrest⟩

end Settle

/-! ### What it means for one seat -/

/-- The seat and its bookings agree: it is held exactly if one booking of it is pending and
none confirmed, booked exactly if one is confirmed and none pending, and available exactly if
none is either. -/
structure SeatAgrees (db : Db backend) (i : ℕ) (seat : SeatRow) : Prop where
  held : seat.status = .held ↔
    (∃! b, Stands db b i .pending) ∧ ∀ b, ¬Stands db b i .confirmed
  booked : seat.status = .booked ↔
    (∃! b, Stands db b i .confirmed) ∧ ∀ b, ¬Stands db b i .pending
  available : seat.status = .available ↔
    ∀ b, ¬Stands db b i .pending ∧ ¬Stands db b i .confirmed

/-- A booking stands on a seat with an active status exactly if its entry is the one of the
seat. -/
theorem Represents.stands_iff {db : Db backend} {ledger : Ledger} (h : Represents db ledger)
    {b i : ℕ} {status : BookingStatus} (hstatus : status.Active) :
    Stands db b i status ↔ ledger i = Entry.of b status := by
  refine ⟨?_, ?_⟩
  · rintro ⟨row, hrow, rfl, rfl⟩
    exact h.booking b row hrow hstatus
  · intro hi
    obtain ⟨-, row, hrow, rfl, hactive⟩ :=
      h.owner i b (by rw [hi]; exact Entry.owner_of hstatus)
    -- the seat's entry is made by the row's own status, and the two entries are one
    have hentry := h.booking b row hrow hactive
    rw [hi] at hentry
    exact ⟨row, hrow, rfl, (Entry.of_inj hstatus hactive hentry).symm⟩

/-- Tables that show a ledger agree on every seat. -/
theorem Represents.seatAgrees {db : Db backend} {ledger : Ledger} (h : Represents db ledger)
    {i : ℕ} {seat : SeatRow} (hseat : db (.seat i) = some seat) : SeatAgrees db i seat := by
  have hstatus := h.seat i seat hseat
  refine ⟨?_, ?_, ?_⟩
  all_goals
    -- a seat has one entry, so what stands on it can be read off case by case
    simp only [h.stands_iff (.inl rfl), h.stands_iff (.inr rfl), Entry.of, hstatus]
    cases ledger i <;> simp [Entry.seatStatus]

/-! ### The beginning -/

/-- A database before the first booking. -/
structure Untouched (db : Db backend) : Prop where
  seats : ∀ (i : ℕ) (seat : SeatRow), db (.seat i) = some seat → seat.status = .available
  bookings : ∀ b, db (.booking b) = none

/-- Then every seat is free. -/
theorem Untouched.represents {db : Db backend} (h : Untouched db) :
    Represents db fun _ => .free where
  seat := h.seats
  booking b row hrow := by
    -- no booking, so no active one
    rw [h.bookings b] at hrow
    cases hrow
  owner i b hown := by
    cases hown

/-- One seat and one user. -/
def oneSeat : Db backend
  | .seat i => if i = 1 then some { status := .available, version := 0 } else none
  | .booking _ => none
  | .user i => if i = 7 then some () else none

theorem untouched_oneSeat : Untouched oneSeat where
  seats i seat h := by
    simp only [oneSeat, Option.ite_none_right_eq_some] at h
    rw [← Option.some.inj h.2]
  bookings _ := rfl

end ScalableBooking.Booking
