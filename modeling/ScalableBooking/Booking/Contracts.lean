import ScalableBooking.Booking.Transactions

/-!
# The contracts of the use cases

Each call is looked at on its own. All calls keep the tables in step with a ledger and never
take a booking backwards (`discipline`). On top of that a call changes the database in the one
way that `Call.guar` says, schedules, removes and announces only what has been committed, always
finds the seat of the booking it moves, and throws only what `Call.Throws` allows
(`Call.contract`). What it returns, `Call.Returns` describes.

The transactions that start from a booking share one argument. The `UPDATE` of the booking
succeeds only on an active one, and from then on its row is held, so on every later snapshot
the booking is still active and its seat is in the state that goes with it: the `UPDATE` of the
seat cannot fail, and the commit moves both (`settleTx_keeps`).
-/

namespace ScalableBooking.Booking

open ReadCommitted

/-! ### What all calls keep -/

/-- What may become of the status of a booking. -/
def BookingStatus.CanBecome : BookingStatus → BookingStatus → Prop
  | .pending, _ => True
  | .confirmed, status => status = .confirmed ∨ status = .cancelled
  | .cancelled, status => status = .cancelled
  | .expired, status => status = .expired

theorem BookingStatus.canBecome_refl (status : BookingStatus) : status.CanBecome status := by
  cases status <;> simp [CanBecome]

theorem BookingStatus.CanBecome.trans {a b c : BookingStatus} (hab : a.CanBecome b)
    (hbc : b.CanBecome c) : a.CanBecome c := by
  cases a with
  | pending => trivial
  -- `confirmed` is the only state with a proper next one
  | confirmed =>
    rcases hab with rfl | rfl
    · exact hbc
    · exact .inr hbc
  | cancelled =>
    cases hab
    exact hbc
  | expired =>
    cases hab
    exact hbc

/-- A later row of the same booking: only the status, forwards, and `updatedAt` can differ. -/
structure BookingRow.Becomes (row row' : BookingRow) : Prop where
  status : row.status.CanBecome row'.status
  seatId : row'.seatId = row.seatId
  userId : row'.userId = row.userId
  holdExpiresAt : row'.holdExpiresAt = row.holdExpiresAt
  createdAt : row'.createdAt = row.createdAt

theorem BookingRow.becomes_refl (row : BookingRow) : row.Becomes row :=
  ⟨row.status.canBecome_refl, rfl, rfl, rfl, rfl⟩

theorem BookingRow.Becomes.trans {a b c : BookingRow} (hab : a.Becomes b) (hbc : b.Becomes c) :
    a.Becomes c :=
  ⟨hab.status.trans hbc.status, hbc.seatId.trans hab.seatId, hbc.userId.trans hab.userId,
    hbc.holdExpiresAt.trans hab.holdExpiresAt, hbc.createdAt.trans hab.createdAt⟩

/-- `db'` can be a later state of `db`: no booking is lost or taken backwards. -/
def Later (db db' : Db backend) : Prop :=
  ∀ (b : ℕ) (row : BookingRow), db (.booking b) = some row →
    ∃ row' : BookingRow, db' (.booking b) = some row' ∧ row.Becomes row'

/-- The tables show a ledger, and bookings only go forwards. -/
def discipline : Discipline backend where
  inv db := ∃ ledger, Represents db ledger
  rely := Later
  rely_refl _ _ row hrow := ⟨row, hrow, row.becomes_refl⟩
  rely_trans _ _ _ h h' b row hrow := by
    obtain ⟨row', hrow', hle⟩ := h b row hrow
    obtain ⟨row'', hrow'', hle'⟩ := h' b row' hrow'
    exact ⟨row'', hrow'', hle.trans hle'⟩

theorem later_settle {db : Db backend} {b : ℕ} {booking' : BookingRow} {seat : SeatRow}
    (h : ∀ booking : BookingRow, db (.booking b) = some booking → booking.Becomes booking') :
    Later db (settle db b booking' seat) := by
  intro c row hrow
  by_cases hc : c = b
  · -- the booking itself: the new row is a later one by hypothesis
    subst hc
    exact ⟨booking', by simp, h row hrow⟩
  · exact ⟨row, by rw [settle_booking_ne hc, hrow], row.becomes_refl⟩

/-! ### What one call promises -/

/-- The booking `b`, in one of the states `from_`, gets a row that `upd` allows, and its seat
goes along. -/
def Moves (b : ℕ) (from_ : List BookingStatus) (upd : BookingRow → BookingRow → Prop)
    (db db' : Db backend) : Prop :=
  ∃ (booking booking' : BookingRow) (seat : SeatRow),
    db (.booking b) = some booking ∧ booking.status ∈ from_ ∧
    db (.seat booking.seatId) = some seat ∧
    seat.status = (Entry.of b booking.status).seatStatus ∧ upd booking booking' ∧
    db' = settle db b booking' (seat.moved (Entry.of b booking'.status).seatStatus)

/-- What a transaction of a call that began at `start` does to the database when it commits. -/
def Call.guar : Call → ℕ → Db backend → Db backend → Prop
  | reserveSeat seatId userId, start, db, db' =>
      ∃ (seat : SeatRow) (b holdExpiresAt : ℕ), db (.seat seatId) = some seat ∧
        seat.status = .available ∧ db (.booking b) = none ∧
        db' = settle db b
          { seatId, userId, status := .pending, holdExpiresAt := some holdExpiresAt,
            createdAt := start, updatedAt := start } (seat.moved .held)
  | confirmBooking b _, start, db, db' =>
      db' = db ∨ Moves b [.pending] (fun row row' =>
        ∃ now, start ≤ now ∧ row' = { row with status := .confirmed, updatedAt := now }) db db'
  | cancelBooking b _, start, db, db' =>
      db' = db ∨ Moves b [.pending, .confirmed] (fun row row' =>
        ∃ now, start ≤ now ∧ row' = { row with status := .cancelled, updatedAt := now }) db db'
  | expireHold b, _, db, db' =>
      db' = db ∨ Moves b [.pending] (fun row row' => row' = { row with status := .expired }) db db'

/-- The state of a booking that an event announces. -/
def EventType.status : EventType → BookingStatus
  | created => .pending
  | confirmed => .confirmed
  | cancelled => .cancelled

/-- The booking `b` has come as far as an event of this type announces. -/
def EventType.Reached (type : EventType) (b : ℕ) (db : Db backend) : Prop :=
  ∃ row : BookingRow, db (.booking b) = some row ∧ type.status.CanBecome row.status

/-- Where a call may perform an effect: a job is scheduled for a committed booking and does not
fire before its hold is over, it is removed for a cancelled one, and an event is sent for a
booking that has come that far. -/
def Effect.Allowed : Effect → Past backend → Prop
  | add job, κ => job.jobId = holdExpiryJobId job.bookingId ∧
      ∃ (row : BookingRow) (holdExpiresAt : ℕ), κ.seen (.booking job.bookingId) = some row ∧
        row.holdExpiresAt = some holdExpiresAt ∧ holdExpiresAt ≤ κ.time + job.delay
  | getJob _, _ => True
  | remove jobId, κ =>
      ∃ (b : ℕ) (row : BookingRow), jobId = holdExpiryJobId b ∧ κ.seen (.booking b) = some row ∧
        row.status = .cancelled
  | send message, κ => message.type.Reached message.payload.bookingId κ.seen

/-- What a call throws: the connection breaks, or the database is in a state that goes with the
error. -/
def Call.Throws (call : Call) (e : BookingError) (db : Db backend) : Prop :=
  e = .infrastructure ∨
    match call with
    | reserveSeat seatId _ => e = .seatNotFound seatId ∨ e = .seatUnavailable seatId
    | confirmBooking b _ => e = .bookingNotFound b ∨
        ∃ row : BookingRow, db (.booking b) = some row ∧ row.status ≠ .pending ∧
          e = .bookingNotConfirmable b row.status.text
    | cancelBooking b _ => e = .bookingNotFound b ∨
        ∃ row : BookingRow, db (.booking b) = some row ∧ ¬row.status.Active ∧
          e = .bookingNotCancellable b row.status.text
    | expireHold _ => False

/-- No call throws one of the `state drift` errors. -/
theorem Call.Throws.not_isDrift {call : Call} {e : BookingError} {db : Db backend}
    (h : call.Throws e db) : ¬e.IsDrift := by
  obtain rfl | h := h
  · exact id
  cases call with
  | reserveSeat seatId userId =>
    obtain rfl | rfl := h
    · exact id
    · exact id
  | confirmBooking b userId =>
    obtain rfl | ⟨_, _, _, rfl⟩ := h
    · exact id
    · exact id
  | cancelBooking b userId =>
    obtain rfl | ⟨_, _, _, rfl⟩ := h
    · exact id
    · exact id
  | expireHold b => exact h.elim

/-- The contract of a call. A call that is about a booking finds the seats it looks for. -/
def Call.contract (call : Call) : Contract backend where
  guar := call.guar
  act := Effect.Allowed
  miss k := call.bookingId? = none ∨ ∀ i, k ≠ .seat i
  err e κ := call.Throws e κ.seen

/-- Every contract allows for a broken connection. -/
theorem Call.breakable (call : Call) (commits : List (Db backend × Db backend)) :
    call.contract.Breakable commits :=
  fun _ _ => .inl rfl

/-- A result that tells of a booking and its seat in step: no hold was expired without its
seat. -/
def Result.InStep (r : Result) : Prop := ∀ booking, r ≠ .expired (some (booking, none))

/-- What a call that began on `db₀` returns, and what the database `db` it saw last says of it:
the row returned has been committed. After `expireHold` a booking that was there is not pending
any more, whether the call changed it or not. -/
def Call.Returns (db₀ : Db backend) : Call → Result → Db backend → Prop
  | reserveSeat seatId userId, r, db => ∃ (b : ℕ) (row row' : BookingRow),
      r = .reserved b row ∧ row.seatId = seatId ∧ row.userId = userId ∧ row.status = .pending ∧
        db (.booking b) = some row' ∧ row.Becomes row'
  | confirmBooking b _, r, db => ∃ row row' : BookingRow,
      r = .confirmed b row ∧ row.status = .confirmed ∧ db (.booking b) = some row' ∧
        row.Becomes row'
  | cancelBooking b _, r, db => ∃ row row' : BookingRow,
      r = .cancelled b row ∧ row.status = .cancelled ∧ db (.booking b) = some row' ∧
        row.Becomes row'
  | expireHold b, r, db => (∃ rows, r = .expired rows) ∧ r.InStep ∧
      ∀ row : BookingRow, db₀ (.booking b) = some row →
        ∃ row' : BookingRow, db (.booking b) = some row' ∧ row'.status ≠ .pending

theorem Call.Returns.inStep {db₀ : Db backend} {call : Call} {r : Result} {db : Db backend}
    (h : call.Returns db₀ r db) : r.InStep := by
  cases call with
  | reserveSeat seatId userId =>
    obtain ⟨_, _, _, rfl, _⟩ := h
    intro booking
    simp
  | confirmBooking b userId =>
    obtain ⟨_, _, rfl, _⟩ := h
    intro booking
    simp
  | cancelBooking b userId =>
    obtain ⟨_, _, rfl, _⟩ := h
    intro booking
    simp
  | expireHold b => exact h.2.1

/-! ### The ledger goes along -/

section Settle

variable {db : Db backend} {ledger : Ledger} {b : ℕ} {booking booking' : BookingRow}
  {seat : SeatRow}

/-- Settling an active booking is a change that all calls reckon with. -/
theorem keeps_of_active (hrep : Represents db ledger)
    (hbooking : db (.booking b) = some booking) (hactive : booking.status.Active)
    (hbecomes : booking.Becomes booking') :
    let db' := settle db b booking' (seat.moved (Entry.of b booking'.status).seatStatus)
    discipline.inv db' ∧ discipline.rely db db' := by
  -- the ledger has the entry of the booking, and `settle` replaces it
  have hentry := hrep.booking b booking hbooking hactive
  refine ⟨⟨_, hrep.settle rfl ?_ ?_⟩, later_settle ?_⟩
  · intro c hc
    -- the owner of the seat is `b`
    rw [hbecomes.seatId, hentry, Entry.owner_of hactive] at hc
    exact (Option.some.inj hc).symm
  · intro i hi
    -- `b` owns no other seat: its row names this one
    obtain ⟨-, row, hrow, rfl, -⟩ := hrep.owner i b hi
    rw [hbooking] at hrow
    cases hrow
    exact hbecomes.seatId.symm
  · intro row hrow
    rw [hbooking] at hrow
    cases hrow
    exact hbecomes

/-- Settling a new booking on an available seat is one, too. -/
theorem keeps_of_new (hrep : Represents db ledger)
    (hseat : db (.seat booking.seatId) = some seat) (hstatus : seat.status = .available)
    (hnew : db (.booking b) = none) (hpending : booking.status = .pending) :
    let db' := settle db b booking (seat.moved .held)
    discipline.inv db' ∧ discipline.rely db db' := by
  have hnew' : (seat.moved .held).status = (Entry.of b booking.status).seatStatus := by
    rw [hpending]
    rfl
  refine ⟨⟨_, hrep.settle hnew' ?_ ?_⟩, later_settle ?_⟩
  · intro c hc
    -- nobody owns an available seat
    simp [hrep.free_of_available hseat hstatus, Entry.owner] at hc
  · intro i hi
    obtain ⟨-, row, hrow, -⟩ := hrep.owner i b hi
    -- a booking that is not there owns nothing
    simp [hnew] at hrow
  · intro row hrow
    simp [hnew] at hrow

end Settle

/-! ### The transactions -/

section Transactions

variable {call : Call} {start : ℕ} {κ : Past backend} {b : ℕ} {α : Type}

/-- A call about the booking `b` settles it: if the booking is in one of the states `from_`, it
gets the row `set` gives it and its seat goes along, and otherwise nothing happens. The seat is
always found. -/
theorem settleTx_keeps {from_ : List BookingStatus}
    {set : BookingRow → BookingRow} {seatFrom : List SeatStatus} {target : SeatStatus}
    {rest : Option BookingRow → Tx backend (Option α)}
    {next : BookingRow → Option SeatRow → Tx backend (Option α)}
    {v : BookingRow → SeatRow → α} {K : Option α → Past backend → Prop}
    (hset : ∀ booking : BookingRow, (set booking).seatId = booking.seatId)
    (hfrom : ∀ booking : BookingRow, booking.status ∈ from_ → booking.status.Active ∧
      (Entry.of b booking.status).seatStatus ∈ seatFrom ∧ booking.Becomes (set booking) ∧
      (Entry.of b (set booking).status).seatStatus = target)
    (hrest : rest none = .ret none)
    (hrest' : ∀ row, rest (some row) = (updateSeat seatFrom target row.seatId).bind (next row))
    (hnext : ∀ row seat, next row (some seat) = .ret (some (v row seat)))
    (hnone : ∀ db db', Later κ.seen db → (∀ booking : BookingRow,
      db (.booking b) = some booking → booking.status ∉ from_) → Later db db' →
        call.guar start db' db' ∧ K none (κ.moved db' db'))
    (h : ∀ (db : Db backend) (booking : BookingRow) (seat : SeatRow),
      db (.booking b) = some booking → booking.status ∈ from_ →
      db (.seat booking.seatId) = some seat →
      seat.status = (Entry.of b booking.status).seatStatus →
        let db' := settle db b (set booking) (seat.moved target)
        call.guar start db db' ∧
          K (some (v (set booking) (seat.moved target))) (κ.moved db db')) :
    ((updateBooking b from_ set).bind rest).Safe discipline call.contract start
      (CommitSafe discipline call.contract start K) κ Writes.empty := by
  refine settleTx_safe hset hrest hrest' hnext (.inr fun i => by simp) ?_ ?_ ?_
  · intro db db' hlater hno _ hlater'
    exact hnone db db' hlater hno hlater'
  · rintro db db₁ booking ⟨ledger, hrep⟩ - hbooking hstatus hno
    -- the booking is active, so its seat is in a state the update looks for
    obtain ⟨hactive, hseatFrom, -⟩ := hfrom booking hstatus
    obtain ⟨seat, hseat, hseatStatus⟩ := hrep.seat_of_active hbooking hactive
    rw [← hseatStatus] at hseatFrom
    exact absurd hseatFrom (hno seat hseat)
  · rintro db booking seat ⟨ledger, hrep⟩ hbooking hstatus hseat -
    obtain ⟨hactive, -, hbecomes, rfl⟩ := hfrom booking hstatus
    have hseatStatus : seat.status = (Entry.of b booking.status).seatStatus := by
      rw [hrep.seat _ seat hseat, hrep.booking b booking hbooking hactive]
    exact and_assoc.mp ⟨keeps_of_active hrep hbooking hactive hbecomes,
      h db booking seat hbooking hstatus hseat hseatStatus⟩

/-- A booking seen once is there later, and has come at least as far. -/
theorem Later.exists_row {seen db : Db backend} {row : BookingRow} (h : Later seen db)
    (hrow : seen (.booking b) = some row) :
    ∃ row' : BookingRow, db (.booking b) = some row' ∧ row.Becomes row' :=
  h b row hrow

/-- A booking that was not in one of the states `from_` is not later, if no state leads back to
one of those. -/
theorem Later.not_mem {seen db db' : Db backend} {row : BookingRow}
    {from_ : List BookingStatus} (hback : ∀ status status' : BookingStatus,
      status.CanBecome status' → status' ∈ from_ → status ∈ from_)
    (h : Later seen db) (hrow : seen (.booking b) = some row)
    (hno : ∀ booking : BookingRow, db (.booking b) = some booking → booking.status ∉ from_)
    (h' : Later db db') :
    ∃ row' : BookingRow, db' (.booking b) = some row' ∧ row'.status ∉ from_ := by
  obtain ⟨row₁, hrow₁, -⟩ := h.exists_row hrow
  obtain ⟨row₂, hrow₂, hbecomes⟩ := h'.exists_row hrow₁
  exact ⟨row₂, hrow₂, fun hmem => hno row₁ hrow₁ (hback _ _ hbecomes.status hmem)⟩

/-- No state leads back to `pending`. -/
theorem BookingStatus.mem_pending_of_canBecome (status status' : BookingStatus)
    (h : status.CanBecome status') (hmem : status' ∈ [BookingStatus.pending]) :
    status ∈ [BookingStatus.pending] := by
  cases status <;> cases status' <;> simp [CanBecome] at h hmem ⊢

/-- So a booking that is pending has always been. -/
theorem BookingRow.Becomes.pending {row row' : BookingRow} (h : row.Becomes row')
    (hpending : row'.status = .pending) : row.status = .pending := by
  have hback := BookingStatus.mem_pending_of_canBecome _ _ h.status
    (List.mem_singleton.mpr hpending)
  exact List.mem_singleton.mp hback

/-- No state leads back to an active one. -/
theorem BookingStatus.mem_active_of_canBecome (status status' : BookingStatus)
    (h : status.CanBecome status')
    (hmem : status' ∈ [BookingStatus.pending, BookingStatus.confirmed]) :
    status ∈ [BookingStatus.pending, BookingStatus.confirmed] := by
  cases status <;> cases status' <;> simp [CanBecome] at h hmem ⊢

/-- The transaction of `confirmBooking` keeps its contract. -/
theorem confirmBookingTx_safe {userId : ℕ} {row : BookingRow}
    {K : Option BookingRow → Past backend → Prop} (hrow : κ.seen (.booking b) = some row)
    (hnone : ∀ (κ' : Past backend) (row' : BookingRow), κ'.seen (.booking b) = some row' →
      row'.status ≠ .pending → K none κ')
    (h : ∀ (κ' : Past backend) (booking : BookingRow), κ'.seen (.booking b) = some booking →
      booking.status = .confirmed → K (some booking) κ') :
    (confirmBookingTx b).Safe discipline (Call.confirmBooking b userId).contract κ.time
      (CommitSafe discipline (Call.confirmBooking b userId).contract κ.time K) κ
      Writes.empty := by
  intro now hnow
  refine settleTx_keeps (v := fun booking _ => booking) (fun _ => rfl) ?_ rfl (fun _ => rfl)
    (fun _ _ => rfl) ?_ ?_
  · intro booking hstatus
    rw [List.mem_singleton] at hstatus
    refine ⟨.inl hstatus, ?_, ⟨by rw [hstatus]; trivial, rfl, rfl, rfl, rfl⟩, rfl⟩
    -- a pending booking holds its seat
    simp [hstatus, Entry.of, Entry.seatStatus]
  · intro db db' hlater hno hlater'
    obtain ⟨row', hrow', hstatus⟩ :=
      hlater.not_mem BookingStatus.mem_pending_of_canBecome hrow hno hlater'
    exact ⟨.inl rfl, hnone _ row' hrow' (by simpa using hstatus)⟩
  · intro db booking seat hbooking hstatus hseat hseatStatus
    refine ⟨.inr ⟨booking, _, seat, hbooking, hstatus, hseat, hseatStatus, ⟨now, hnow, rfl⟩, rfl⟩,
      ?_⟩
    exact h _ _ (by simp) rfl

/-- The transaction of `cancelBooking` keeps its contract. -/
theorem cancelBookingTx_safe {userId : ℕ} {row : BookingRow}
    {K : Option BookingRow → Past backend → Prop} (hrow : κ.seen (.booking b) = some row)
    (hnone : ∀ (κ' : Past backend) (row' : BookingRow), κ'.seen (.booking b) = some row' →
      ¬row'.status.Active → K none κ')
    (h : ∀ (κ' : Past backend) (booking : BookingRow), κ'.seen (.booking b) = some booking →
      booking.status = .cancelled → K (some booking) κ') :
    (cancelBookingTx b).Safe discipline (Call.cancelBooking b userId).contract κ.time
      (CommitSafe discipline (Call.cancelBooking b userId).contract κ.time K) κ
      Writes.empty := by
  intro now hnow
  refine settleTx_keeps (v := fun booking _ => booking) (fun _ => rfl) ?_ rfl (fun _ => rfl)
    (fun _ _ => rfl) ?_ ?_
  · intro booking hstatus
    have hactive : booking.status.Active := by simpa [BookingStatus.Active] using hstatus
    refine ⟨hactive, ?_, ⟨?_, rfl, rfl, rfl, rfl⟩, rfl⟩
    · -- the seat is held or booked, and the update takes it from either
      rcases hactive with hs | hs
      · simp [hs, Entry.of, Entry.seatStatus]
      · simp [hs, Entry.of, Entry.seatStatus]
    · rcases hactive with hs | hs
      · rw [hs]
        trivial
      · rw [hs]
        exact .inr rfl
  · intro db db' hlater hno hlater'
    obtain ⟨row', hrow', hstatus⟩ :=
      hlater.not_mem BookingStatus.mem_active_of_canBecome hrow hno hlater'
    exact ⟨.inl rfl, hnone _ row' hrow' (by simpa [BookingStatus.Active] using hstatus)⟩
  · intro db booking seat hbooking hstatus hseat hseatStatus
    refine ⟨.inr ⟨booking, _, seat, hbooking, hstatus, hseat, hseatStatus, ⟨now, hnow, rfl⟩, rfl⟩,
      ?_⟩
    exact h _ _ (by simp) rfl

/-- The transaction of `expireHold` keeps its contract, and finds the seat. -/
theorem expireHoldTx_safe {K : Option (BookingRow × Option SeatRow) → Past backend → Prop}
    (hnone : ∀ κ' : Past backend, (∀ row : BookingRow, κ.seen (.booking b) = some row →
      ∃ row' : BookingRow, κ'.seen (.booking b) = some row' ∧ row'.status ≠ .pending) → K none κ')
    (h : ∀ (κ' : Past backend) (booking : BookingRow) (seat : SeatRow),
      κ'.seen (.booking b) = some booking → booking.status = .expired →
        K (some (booking, some seat)) κ') :
    (expireHoldTx b).Safe discipline (Call.expireHold b).contract start
      (CommitSafe discipline (Call.expireHold b).contract start K) κ Writes.empty := by
  refine settleTx_keeps (v := fun booking seat => (booking, some seat)) (fun _ => rfl) ?_ rfl
    (fun _ => rfl) (fun _ _ => rfl) ?_ ?_
  · intro booking hstatus
    rw [List.mem_singleton] at hstatus
    refine ⟨.inl hstatus, ?_, ⟨by rw [hstatus]; trivial, rfl, rfl, rfl, rfl⟩, rfl⟩
    simp [hstatus, Entry.of, Entry.seatStatus]
  · -- nothing is written: the booking was no longer pending, and does not become so again
    intro db db' hlater hno hlater'
    refine ⟨.inl rfl, hnone _ ?_⟩
    intro row hrow
    obtain ⟨row', hrow', hstatus⟩ :=
      hlater.not_mem BookingStatus.mem_pending_of_canBecome hrow hno hlater'
    exact ⟨row', hrow', by simpa using hstatus⟩
  · intro db booking seat hbooking hstatus hseat hseatStatus
    refine ⟨.inr ⟨booking, _, seat, hbooking, hstatus, hseat, hseatStatus, rfl, rfl⟩, ?_⟩
    exact h _ _ _ (by simp) rfl

end Transactions

/-! ### The calls -/

section Effects

variable {call : Call} {κ : Past backend} {b : ℕ} {row : BookingRow}

theorem scheduleHoldExpiry_safe {holdExpiresAt : ℕ} {Q : Reply → Past backend → Prop}
    (hrow : κ.seen (.booking b) = some row) (hhold : row.holdExpiresAt = some holdExpiresAt)
    (h : ∀ r κ', Later κ.seen κ'.seen → Q r κ') :
    (scheduleHoldExpiry b holdExpiresAt).Safe discipline call.contract Q κ := by
  intro now _ db _ hlater
  -- whatever has become of the booking since, its row is there with the same hold
  obtain ⟨row', hrow', hbecomes⟩ := hlater.exists_row hrow
  refine ⟨⟨rfl, row', holdExpiresAt, hrow', hbecomes.holdExpiresAt.trans hhold, ?_⟩, ?_⟩
  · show holdExpiresAt ≤ now + (holdExpiresAt - now)
    omega
  · intro r
    exact h r _ hlater

theorem removeHoldExpiry_safe {Q : Unit → Past backend → Prop}
    (hrow : κ.seen (.booking b) = some row) (hstatus : row.status = .cancelled)
    (h : ∀ κ', Later κ.seen κ'.seen → Q () κ') :
    (removeHoldExpiry b).Safe discipline call.contract Q κ := by
  intro db _ hlater
  refine ⟨trivial, ?_⟩
  intro r
  cases r with
  | resolved =>
    intro db' _ hlater'
    -- the reply came, and the database has gone on: still cancelled
    have hlater'' := discipline.rely_trans _ _ _ hlater hlater'
    obtain ⟨row', hrow', hbecomes⟩ := Later.exists_row hlater'' hrow
    have hstatus' := hbecomes.status
    rw [hstatus] at hstatus'
    exact ⟨⟨b, row', rfl, hrow', hstatus'⟩, fun _ => h _ hlater''⟩
  | absent => exact h _ hlater
  | rejected => exact h _ hlater

theorem publishBookingEvent_safe {type : EventType} {payload : Payload}
    {Q : Reply → Past backend → Prop} (hrow : κ.seen (.booking payload.bookingId) = some row)
    (hstatus : type.status.CanBecome row.status) (h : ∀ r κ', Later κ.seen κ'.seen → Q r κ') :
    (publishBookingEvent type payload).Safe discipline call.contract Q κ := by
  intro now _ db _ hlater
  obtain ⟨row', hrow', hbecomes⟩ := hlater.exists_row hrow
  -- the state announced was reached before, and bookings only go forwards
  refine ⟨⟨row', hrow', hstatus.trans hbecomes.status⟩, ?_⟩
  intro r
  exact h r _ hlater

end Effects

theorem reserveSeat_safe (env : Env) (seatId userId : ℕ) (κ : Past backend) :
    (reserveSeat env seatId userId).Safe discipline (Call.reserveSeat seatId userId).contract
      (fun r κ' => (Call.reserveSeat seatId userId).Returns κ.seen r κ'.seen) κ := by
  simp only [reserveSeat, findSeatById, Prog.bind_eq, Prog.bind, Prog.Safe]
  refine ⟨Call.breakable _ _, ?_⟩
  intro db₀ _ _
  cases (db₀ (.seat seatId)).filter fun _ => true with
  | none => exact .inr (.inl rfl)
  | some existing =>
    intro now _
    refine ⟨Call.breakable _ _, ?_⟩
    intro start _
    refine reserveSeatTx_safe (.inl rfl) (fun _ _ _ => .inr (.inr rfl)) ?_
    rintro db seat b ⟨ledger, hrep⟩ hseat hstatus hnew
    refine and_assoc.mp ⟨keeps_of_new hrep hseat hstatus hnew rfl,
      ⟨seat, b, _, hseat, hstatus, hnew, rfl⟩, ?_⟩
    -- after the commit: the two effects, whose replies do not matter
    rw [Prog.safe_bind]
    refine scheduleHoldExpiry_safe (by rw [Past.seen_moved, settle_booking_self]) rfl ?_
    intro _ κ₁ hlater
    obtain ⟨row, hrow, hbecomes⟩ := hlater.exists_row
      (by rw [Past.seen_moved, settle_booking_self])
    rw [Prog.safe_bind]
    refine publishBookingEvent_safe hrow trivial ?_
    intro _ κ₂ hlater'
    obtain ⟨row', hrow', hbecomes'⟩ := hlater'.exists_row hrow
    exact ⟨b, _, row', rfl, rfl, rfl, rfl, hrow', hbecomes.trans hbecomes'⟩

theorem confirmBooking_safe (b userId : ℕ) (κ : Past backend) :
    (confirmBooking b userId).Safe discipline (Call.confirmBooking b userId).contract
      (fun r κ' => (Call.confirmBooking b userId).Returns κ.seen r κ'.seen) κ := by
  simp only [confirmBooking, findOwnBooking, Prog.bind_eq, Prog.bind, Prog.Safe]
  refine ⟨Call.breakable _ _, ?_⟩
  intro db₀ _ _
  cases hown : (db₀ (.booking b)).filter fun row => decide (row.userId = userId) with
  | none => exact .inr (.inl rfl)
  | some existing =>
    refine ⟨Call.breakable _ _, ?_⟩
    intro start _
    refine confirmBookingTx_safe (Option.filter_eq_some_iff.mp hown).1 ?_ ?_
    · -- not matched: the error names the state read afterwards
      intro κ₁ row hrow hstatus
      refine ⟨Call.breakable _ _, ?_⟩
      intro db₁ _ hlater
      obtain ⟨row', hrow', hbecomes⟩ := Later.exists_row hlater hrow
      rw [hrow', Option.filter_some]
      refine .inr (.inr ⟨row', hrow', ?_, rfl⟩)
      intro hpending
      exact hstatus (hbecomes.pending hpending)
    · intro κ₁ booking hbooking hstatus
      simp only [Prog.safe_bind]
      refine publishBookingEvent_safe hbooking (.inl hstatus) ?_
      intro _ κ₂ hlater
      obtain ⟨row', hrow', hbecomes⟩ := hlater.exists_row hbooking
      exact ⟨booking, row', rfl, hstatus, hrow', hbecomes⟩

theorem cancelBooking_safe (b userId : ℕ) (κ : Past backend) :
    (cancelBooking b userId).Safe discipline (Call.cancelBooking b userId).contract
      (fun r κ' => (Call.cancelBooking b userId).Returns κ.seen r κ'.seen) κ := by
  simp only [cancelBooking, findOwnBooking, Prog.bind_eq, Prog.bind, Prog.Safe]
  refine ⟨Call.breakable _ _, ?_⟩
  intro db₀ _ _
  cases hown : (db₀ (.booking b)).filter fun row => decide (row.userId = userId) with
  | none => exact .inr (.inl rfl)
  | some existing =>
    refine ⟨Call.breakable _ _, ?_⟩
    intro start _
    refine cancelBookingTx_safe (Option.filter_eq_some_iff.mp hown).1 ?_ ?_
    · intro κ₁ row hrow hstatus
      refine ⟨Call.breakable _ _, ?_⟩
      intro db₁ _ hlater
      obtain ⟨row', hrow', hbecomes⟩ := Later.exists_row hlater hrow
      rw [hrow', Option.filter_some]
      refine .inr (.inr ⟨row', hrow', ?_, rfl⟩)
      intro hactive
      have hback := BookingStatus.mem_active_of_canBecome _ _ hbecomes.status
        (by simpa [BookingStatus.Active] using hactive)
      exact hstatus (by simpa [BookingStatus.Active] using hback)
    · intro κ₁ booking hbooking hstatus
      simp only [Prog.safe_bind]
      -- after the commit: the job, then the event, of a booking that stays cancelled
      refine removeHoldExpiry_safe hbooking hstatus ?_
      intro κ₂ hlater
      obtain ⟨row, hrow, hbecomes⟩ := hlater.exists_row hbooking
      have hstatus' := hbecomes.status
      rw [hstatus] at hstatus'
      refine publishBookingEvent_safe hrow hstatus' ?_
      intro _ κ₃ hlater'
      obtain ⟨row', hrow', hbecomes'⟩ := hlater'.exists_row hrow
      exact ⟨booking, row', rfl, hstatus, hrow', hbecomes.trans hbecomes'⟩

theorem expireHold_safe (b : ℕ) (κ : Past backend) :
    (expireHold b).Safe discipline (Call.expireHold b).contract
      (fun r κ' => (Call.expireHold b).Returns κ.seen r κ'.seen) κ := by
  refine ⟨Call.breakable _ _, ?_⟩
  intro start _
  refine expireHoldTx_safe ?_ ?_
  · intro κ₁ hseen
    exact ⟨⟨none, rfl⟩, fun booking => by simp, hseen⟩
  · intro κ₁ booking seat hbooking hstatus
    refine ⟨⟨_, rfl⟩, fun booking' => by simp, ?_⟩
    intro _ _
    exact ⟨booking, hbooking, by simp [hstatus]⟩

/-- Every call keeps its contract. -/
theorem Call.safe (env : Env) (call : Call) (κ : Past backend) :
    (call.code env).Safe discipline call.contract
      (fun r κ' => call.Returns κ.seen r κ'.seen) κ := by
  cases call with
  | reserveSeat seatId userId => exact reserveSeat_safe env seatId userId κ
  | confirmBooking b userId => exact confirmBooking_safe b userId κ
  | cancelBooking b userId => exact cancelBooking_safe b userId κ
  | expireHold b => exact expireHold_safe b κ

/-- Every call keeps its contract in every run from an untouched database. -/
theorem start_sound {P : Type} [DecidableEq P] {env : Env} {calls : P → Call}
    {db : Db backend} {nextId clock : ℕ} (h : Untouched db) :
    Sound discipline (fun p => (calls p).contract)
      (fun p r κ => (calls p).Returns db r κ.seen) (fun _ => [])
      (start env calls db nextId clock) :=
  Sound.initial ⟨_, h.represents⟩ fun p => (calls p).safe env ⟨db, clock, []⟩

end ScalableBooking.Booking
