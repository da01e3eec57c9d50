import ScalableBooking.Booking.Ledger
import ScalableBooking.Lib.RelyGuarantee

/-!
# The transactions of the use cases

Proof rules for the two shapes of transaction there are, under any discipline. `reserveSeat`
takes a seat and inserts a booking (`reserveSeatTx_safe`). The other three rewrite a booking
and then its seat (`settleTx_safe`). In both a transaction that commits what it wrote turns the
tables `db` into `settle db b booking seat`, and until then the rows it holds are the committed
ones (`commitSafe_settle`).
-/

namespace ScalableBooking.Booking

open ReadCommitted

/-- A seat's row after one of the updates of the repository. -/
def SeatRow.moved (seat : SeatRow) (target : SeatStatus) : SeatRow :=
  { seat with status := target, version := seat.version + 1 }

section Rules

variable {R : Discipline backend} {C : Contract backend} {start : ℕ} {κ : Past backend}
  {α : Type} {b : ℕ}

/-- A commit of nothing. -/
theorem commitSafe_unchanged {K : α → Past backend → Prop} {a : α}
    (h : ∀ db, R.inv db → R.rely κ.seen db → C.guar start db db ∧ K a (κ.moved db db)) :
    CommitSafe R C start K a κ Writes.empty := by
  intro db hinv hrely _
  exact ⟨hinv, R.rely_refl db, h db hinv hrely⟩

/-- The commit of a transaction that holds a booking and its seat. -/
theorem commitSafe_settle {K : α → Past backend → Prop} {a : α} {db₁ db₂ : Db backend}
    {booking booking' : BookingRow} {seat seat' : SeatRow}
    (hbooking : db₁ (.booking b) = some booking)
    (hseat : db₂ (.seat booking.seatId) = some seat) (hsame : booking'.seatId = booking.seatId)
    (h : ∀ db : Db backend, R.inv db → R.rely κ.seen db → db (.booking b) = some booking →
      db (.seat booking.seatId) = some seat →
        let db' := settle db b booking' seat'
        R.inv db' ∧ R.rely db db' ∧ C.guar start db db' ∧ K a (κ.moved db db')) :
    CommitSafe R C start K a κ
      ((Writes.empty.write db₁ (.booking b) booking').write db₂ (.seat booking.seatId)
        seat') := by
  intro db hinv hrely hw
  -- at the commit both rows are as they were when they were written
  have hseat' : db (.seat booking.seatId) = some seat := by
    rw [hw.of_write, hseat]
  have hbooking' : db (.booking b) = some booking := by
    have hne : RowId.booking b ≠ RowId.seat booking.seatId := by simp
    rw [hw.of_write_ne hne (Writes.write_self _ _ _ _), hbooking]
  -- the writes are exactly the two rows that settle the booking
  have hoverlay : ((Writes.empty.write db₁ (.booking b) booking').write db₂
      (.seat booking.seatId) seat').overlay db = settle db b booking' seat' := by
    rw [Writes.overlay_write, Writes.overlay_write, Writes.overlay_empty, settle, hsame]
  rw [hoverlay]
  exact h db hinv hrely hbooking' hseat'

/-- The transaction of `reserveSeat`: if the seat is available when it is locked, it is when the
transaction commits, and the number of the booking is new. -/
theorem reserveSeatTx_safe {seatId userId holdExpiresAt : ℕ}
    {K : ℕ × BookingRow → Past backend → Prop} (hmiss : C.miss (.seat seatId))
    (herr : ∀ db, R.inv db → (∀ seat : SeatRow, db (.seat seatId) = some seat →
      seat.status ≠ .available) → C.err (.seatUnavailable seatId) (κ.sees db))
    (h : ∀ (db : Db backend) (seat : SeatRow) (b : ℕ), R.inv db →
      db (.seat seatId) = some seat → seat.status = .available → db (.booking b) = none →
        let booking : BookingRow :=
          { seatId, userId, status := .pending, holdExpiresAt := some holdExpiresAt,
            createdAt := start, updatedAt := start }
        let db' := settle db b booking (seat.moved .held)
        R.inv db' ∧ R.rely db db' ∧ C.guar start db db' ∧ K (b, booking) (κ.moved db db')) :
    (reserveSeatTx seatId userId holdExpiresAt).Safe R C start (CommitSafe R C start K) κ
      Writes.empty := by
  simp only [reserveSeatTx, reserveSeatRow, updateSeat, Tx.bind_eq, Tx.bind, Tx.Safe,
    Writes.overlay_empty, List.mem_singleton, decide_eq_true_eq, decide_eq_false_iff_not]
  intro db₁ hinv _ _
  refine ⟨?_, fun hno => ⟨hmiss, herr db₁ hinv hno⟩⟩
  rintro seat hseat hstatus db₂ b - - - - hfresh - db hinv' - hw
  -- the seat has been available since it was locked, and the number of the booking is new
  have hseat' : db (.seat seatId) = some seat := by
    have hne : RowId.seat seatId ≠ RowId.booking b := by simp
    rw [hw.of_write_ne hne (Writes.write_self _ _ _ _), hseat]
  have hnew : db (.booking b) = none := by
    rw [hw.of_write, hfresh]
  rw [Writes.overlay_write, Writes.overlay_write, Writes.overlay_empty,
    Function.update_comm (by simp)]
  exact h db seat b hinv' hseat' hstatus hnew

/-- A transaction that starts from the booking `b`: if the booking is in one of the states
`from_`, it gets the row `set` gives it and its seat goes from one of the states `seatFrom` to
the state `target`. If the booking is in another state nothing happens. What happens if the
seat is in another state, `next` decides. -/
theorem settleTx_safe {from_ : List BookingStatus} {set : BookingRow → BookingRow}
    {seatFrom : List SeatStatus} {target : SeatStatus}
    {rest : Option BookingRow → Tx backend (Option α)}
    {next : BookingRow → Option SeatRow → Tx backend (Option α)}
    {v : BookingRow → SeatRow → α} {K : Option α → Past backend → Prop}
    (hset : ∀ booking : BookingRow, (set booking).seatId = booking.seatId)
    (hrest : rest none = .ret none)
    (hrest' : ∀ row, rest (some row) = (updateSeat seatFrom target row.seatId).bind (next row))
    (hnext : ∀ row seat, next row (some seat) = .ret (some (v row seat)))
    (hmiss : C.miss (.booking b))
    (hnone : ∀ db db', R.rely κ.seen db → (∀ booking : BookingRow,
      db (.booking b) = some booking → booking.status ∉ from_) → R.inv db' → R.rely db db' →
        C.guar start db' db' ∧ K none (κ.moved db' db'))
    (hlost : ∀ (db db₁ : Db backend) (booking : BookingRow), R.inv db →
      db₁ (.booking b) = some booking → db (.booking b) = some booking → booking.status ∈ from_ →
      (∀ seat : SeatRow, db (.seat booking.seatId) = some seat → seat.status ∉ seatFrom) →
        C.miss (.seat booking.seatId) ∧
          (next (set booking) none).Safe R C start (CommitSafe R C start K) (κ.sees db)
            (Writes.empty.write db₁ (.booking b) (set booking)))
    (h : ∀ (db : Db backend) (booking : BookingRow) (seat : SeatRow), R.inv db →
      db (.booking b) = some booking → booking.status ∈ from_ →
      db (.seat booking.seatId) = some seat → seat.status ∈ seatFrom →
        let db' := settle db b (set booking) (seat.moved target)
        R.inv db' ∧ R.rely db db' ∧ C.guar start db db' ∧
          K (some (v (set booking) (seat.moved target))) (κ.moved db db')) :
    ((updateBooking b from_ set).bind rest).Safe R C start (CommitSafe R C start K) κ
      Writes.empty := by
  rw [Tx.safe_bind]
  simp only [updateBooking, Tx.Safe, Writes.overlay_empty, decide_eq_true_eq,
    decide_eq_false_iff_not]
  intro db₁ _ hrely₁ _
  refine ⟨?_, ?_⟩
  · intro booking hbooking hstatus
    -- the booking moved, and its seat is next
    rw [hrest', Tx.safe_bind, hset]
    simp only [updateSeat, Tx.Safe, Writes.overlay_write, Writes.overlay_empty,
      decide_eq_true_eq, decide_eq_false_iff_not]
    intro db₂ hinv₂ _ hw
    have hheld : db₂ (.booking b) = some booking := by
      -- the booking's row is held, so it is still the same on this snapshot
      rw [hw.of_write, hbooking]
    refine ⟨?_, ?_⟩
    · intro seat hseat hseatStatus
      rw [hnext]
      refine commitSafe_settle hbooking (by simpa using hseat) (hset booking) ?_
      intro db hinv _ hbooking' hseat'
      exact h db booking seat hinv hbooking' hstatus hseat' hseatStatus
    · intro hno
      exact hlost db₂ db₁ booking hinv₂ hbooking hheld hstatus (by simpa using hno)
  · intro hno
    -- the booking was in another state: nothing is written
    rw [hrest]
    refine ⟨hmiss, commitSafe_unchanged ?_⟩
    intro db hinv hrely
    exact hnone db₁ db hrely₁ hno hinv hrely

end Rules

end ScalableBooking.Booking
