import ScalableBooking.Booking.Transactions
import ScalableBooking.Lib.TwoRuns

/-!
# Bookings of other users

A user calls `getBooking`, `listBookings`, `confirmBooking` or `cancelBooking` on one of two
databases, which have the same bookings of this user and may differ in everything else. If seats
and bookings agree in both, the call cannot tell them apart: with the same clock and the same
answers from outside it comes to the same result or error and makes the same changes
(`sameFor_of_own`).

The row that decides is the one of the user's own booking, which is the same in both, also where the
transaction and the error path look for it by its id alone. The seat's row can be another one, with
another version, but it is in the state that goes with the booking (`Consistent.seat_of_active`).
-/

namespace ScalableBooking.Booking

open ReadCommitted

/-- Every booking has its seat, and seats and bookings agree. -/
structure Consistent (db : Db backend) : Prop where
  foreignKey : ∀ (b : ℕ) (row : BookingRow), db (.booking b) = some row →
    (db (.seat row.seatId)).isSome
  agrees : ∀ (i : ℕ) (seat : SeatRow), db (.seat i) = some seat → SeatAgrees db i seat

/-- The booking `b`, if it is one of the user `u`. -/
def ownBooking (db : Db backend) (u b : ℕ) : Option BookingRow :=
  Option.filter (fun row : BookingRow => decide (row.userId = u)) (db (.booking b))

/-- What a call of `u` has changed when it has taken `db` to `r` and `db'` to `r'`. -/
structure SameChanges (u : ℕ) (db db' r r' : Db backend) : Prop where
  /-- The bookings of `u` are still the same in both. -/
  own : ∀ b, ownBooking r' u b = ownBooking r u b
  /-- A seat is left alone in both, or it is one of a booking of `u` and gets the same update. -/
  seats : ∀ i, r (.seat i) = db (.seat i) ∧ r' (.seat i) = db' (.seat i) ∨
    ∃ (b : ℕ) (row : BookingRow) (target : SeatStatus) (seat seat' : SeatRow),
      ownBooking db u b = some row ∧ row.seatId = i ∧ db (.seat i) = some seat ∧
        db' (.seat i) = some seat' ∧ r (.seat i) = some (seat.moved target) ∧
        r' (.seat i) = some (seat'.moved target)
  /-- No booking of anybody else has changed. -/
  others : ∀ b, (ownBooking db u b = none → r (.booking b) = db (.booking b)) ∧
    (ownBooking db' u b = none → r' (.booking b) = db' (.booking b))

/-- Whatever the program does on `db` it does on `db'`: it stands at the same place, with the same
result, error or effect, and has made the same changes. -/
def SameFor {α : Type} (u : ℕ) (db db' : Db backend) (prog : Prog backend α) : Prop :=
  ∀ (nextId clock : ℕ) (es : List (Event backend Unit)) (s : State backend Unit α),
    (State.initial db nextId clock fun _ => prog).run es = some s →
      ∃ s', (State.initial db' nextId clock fun _ => prog).run es = some s' ∧
        s'.procs () = s.procs () ∧ SameChanges u db db' s.db s'.db

/-- The program finds no booking `b`: it changes nothing and ends with that error, or with one of
the connection. -/
def NotFound {α : Type} (b : ℕ) (db : Db backend) (prog : Prog backend α) : Prop :=
  ∀ (nextId clock : ℕ) (es : List (Event backend Unit)) (s : State backend Unit α),
    (State.initial db nextId clock fun _ => prog).run es = some s →
      s.db = db ∧ (∀ r, s.procs () ≠ .outside (.ret r)) ∧
        ∀ e, s.procs () = .outside (.fail e) → e = .bookingNotFound b ∨ e = .infrastructure

section Databases

variable {db db' : Db backend} {u b : ℕ} {row : BookingRow}

theorem ownBooking_eq_some :
    ownBooking db u b = some row ↔ db (.booking b) = some row ∧ row.userId = u := by
  rw [ownBooking, Option.filter_eq_some_iff, decide_eq_true_eq]

/-- The seat of an active booking is there, in the state that goes with the booking's. -/
theorem Consistent.seat_of_active (h : Consistent db) (hrow : db (.booking b) = some row)
    (hactive : row.status.Active) :
    ∃ seat : SeatRow, db (.seat row.seatId) = some seat ∧
      seat.status = (Entry.of b row.status).seatStatus := by
  obtain ⟨seat, hseat⟩ := Option.isSome_iff_exists.mp (h.foreignKey b row hrow)
  have hagrees := h.agrees _ seat hseat
  have hstands : Stands db b row.seatId row.status := ⟨row, hrow, rfl, rfl⟩
  refine ⟨seat, hseat, ?_⟩
  -- the two other states do not go with a booking that stands on the seat
  obtain hs | hs := hactive
  · rw [hs] at hstands ⊢
    cases hstatus : seat.status with
    | available => exact absurd hstands (hagrees.available.mp hstatus b).1
    | held => rfl
    | booked => exact absurd hstands ((hagrees.booked.mp hstatus).2 b)
  · rw [hs] at hstands ⊢
    cases hstatus : seat.status with
    | available => exact absurd hstands (hagrees.available.mp hstatus b).2
    | held => exact absurd hstands ((hagrees.held.mp hstatus).2 b)
    | booked => rfl

theorem SameChanges.refl (hown : ∀ b, ownBooking db' u b = ownBooking db u b) :
    SameChanges u db db' db db' where
  own := hown
  seats _ := .inl ⟨rfl, rfl⟩
  others _ := ⟨fun _ => rfl, fun _ => rfl⟩

/-- Settling a booking of `u` in the same way in both. -/
theorem SameChanges.settle (hown : ∀ b, ownBooking db' u b = ownBooking db u b)
    (hrow : ownBooking db u b = some row) {row' : BookingRow} (hseatId : row'.seatId = row.seatId)
    {seat seat' : SeatRow} (target : SeatStatus)
    (hseat : db (.seat row.seatId) = some seat) (hseat' : db' (.seat row.seatId) = some seat') :
    SameChanges u db db' (settle db b row' (seat.moved target))
      (settle db' b row' (seat'.moved target)) where
  own c := by
    by_cases hc : c = b
    · subst hc
      simp only [ownBooking, settle_booking_self]
    · have hc' := hown c
      simp only [ownBooking] at hc' ⊢
      rw [settle_booking_ne hc, settle_booking_ne hc, hc']
  seats i := by
    by_cases hi : i = row'.seatId
    · subst hi
      rw [hseatId]
      -- the seat of the own booking, which may look different before the change
      refine .inr ⟨b, row, target, seat, seat', hrow, rfl, hseat, hseat', ?_, ?_⟩
      · rw [← hseatId, settle_seat_self]
      · rw [← hseatId, settle_seat_self]
    · exact .inl ⟨settle_seat_ne hi, settle_seat_ne hi⟩
  others c := by
    have hne {r : Db backend} (hr : ownBooking r u b = some row) (hc : ownBooking r u c = none) :
        c ≠ b := by
      rintro rfl
      rw [hr] at hc
      cases hc
    exact ⟨fun hc => settle_booking_ne (hne hrow hc),
      fun hc => settle_booking_ne (hne ((hown b).trans hrow) hc)⟩

end Databases

/-! ### The calls -/

section Calls

variable {db db' : Db backend} {u b : ℕ} {row : BookingRow}

/-- A transaction that settles the booking `b`, which is the same in both databases. -/
theorem settleTx_alike {α : Type} {from_ : List BookingStatus} {set : BookingRow → BookingRow}
    {seatFrom : List SeatStatus} {target : SeatStatus}
    {rest : Option BookingRow → Tx backend (Option α)}
    {next : BookingRow → Option SeatRow → Tx backend (Option α)} {v : BookingRow → α}
    {K : Option α → Db backend → Db backend → Prop}
    (hrow : db (.booking b) = some row) (hrow' : db' (.booking b) = some row)
    (hset : (set row).seatId = row.seatId) (hrest : rest none = .ret none)
    (hrest' : ∀ row, rest (some row) = (updateSeat seatFrom target row.seatId).bind (next row))
    (hnext : ∀ row seat, next row (some seat) = .ret (some (v row)))
    (hseat : row.status ∈ from_ → (∃ seat : SeatRow, db (.seat row.seatId) = some seat ∧
        seat.status ∈ seatFrom) ∧
      ∃ seat : SeatRow, db' (.seat row.seatId) = some seat ∧ seat.status ∈ seatFrom)
    (hnone : K none db db')
    (h : ∀ seat seat' : SeatRow, db (.seat row.seatId) = some seat →
      db' (.seat row.seatId) = some seat' →
        K (some (v (set row))) (settle db b (set row) (seat.moved target))
          (settle db' b (set row) (seat'.moved target))) :
    ((updateBooking b from_ set).bind rest).Alike K db db' := by
  simp only [updateBooking, Tx.bind, Tx.Alike]
  by_cases hstatus : row.status ∈ from_
  · obtain ⟨⟨seat, hseat, hfrom⟩, seat', hseat', hfrom'⟩ := hseat hstatus
    refine .inr ⟨row, row, ?_, ?_, rfl, ?_⟩
    · rw [hrow, Option.filter_some, if_pos (by simpa using hstatus)]
    · rw [hrow', Option.filter_some, if_pos (by simpa using hstatus)]
    · rw [hrest', hset]
      simp only [updateSeat, Tx.bind, Tx.Alike]
      -- the booking is rewritten in both, and its seat is found in both
      refine .inr ⟨seat, seat', ?_, ?_, ?_, ?_⟩
      · rw [Function.update_of_ne (by simp), hseat, Option.filter_some,
          if_pos (by simpa using hfrom)]
      · rw [Function.update_of_ne (by simp), hseat', Option.filter_some,
          if_pos (by simpa using hfrom')]
      · rw [hnext, hnext]
      · rw [hnext]
        have hsettle := h seat seat' hseat hseat'
        rw [settle, settle, hset] at hsettle
        exact hsettle
  · refine .inl ⟨?_, ?_, ?_⟩
    · rw [hrow, Option.filter_some, if_neg (by simpa using hstatus)]
    · rw [hrow', Option.filter_some, if_neg (by simpa using hstatus)]
    · rw [hrest]
      exact hnone

/-- The ownership check sees only bookings of `u`. -/
theorem findOwnBooking_alike {α : Type} {I : Db backend → Db backend → Prop}
    {next : Option BookingRow → Prog backend α} (hown : ownBooking db' u b = ownBooking db u b)
    (h : (next (ownBooking db u b)).Alike I db db') :
    ((findOwnBooking b u).bind next).Alike I db db' :=
  ⟨congrArg next hown, h⟩

/-- The error path sees any booking, but it is only taken for one that is the same in both. -/
theorem findBooking_alike {α : Type} {I : Db backend → Db backend → Prop}
    {next : Option BookingRow → Prog backend α} (hrow : db (.booking b) = some row)
    (hrow' : db' (.booking b) = some row) (h : (next (some row)).Alike I db db') :
    ((findBooking b).bind next).Alike I db db' := by
  simp only [findBooking, Prog.bind, Prog.Alike, hrow, hrow', Option.filter_some, if_true]
  exact ⟨trivial, h⟩

theorem getBooking_alike (hown : ∀ b, ownBooking db' u b = ownBooking db u b) :
    (getBooking b u).Alike (SameChanges u db db') db db' := by
  refine findOwnBooking_alike (hown b) ?_
  cases ownBooking db u b <;> trivial

theorem confirmBooking_alike (hdb : Consistent db) (hdb' : Consistent db')
    (hown : ∀ b, ownBooking db' u b = ownBooking db u b) :
    (confirmBooking b u).Alike (SameChanges u db db') db db' := by
  refine findOwnBooking_alike (hown b) ?_
  cases hrow : ownBooking db u b with
  | none => trivial
  | some row =>
    have hrow' := (hown b).trans hrow
    obtain ⟨hbooking, -⟩ := ownBooking_eq_some.mp hrow
    obtain ⟨hbooking', -⟩ := ownBooking_eq_some.mp hrow'
    intro now
    refine settleTx_alike (v := fun booking => booking) hbooking hbooking' rfl rfl
      (fun _ => rfl) (fun _ _ => rfl) ?_ ?_ ?_
    · intro hstatus
      have hpending := List.mem_singleton.mp hstatus
      -- a pending booking holds its seat, in both
      obtain ⟨seat, hseat, hheld⟩ := hdb.seat_of_active hbooking (.inl hpending)
      obtain ⟨seat', hseat', hheld'⟩ := hdb'.seat_of_active hbooking' (.inl hpending)
      rw [hpending] at hheld hheld'
      exact ⟨⟨seat, hseat, List.mem_singleton.mpr hheld⟩, seat', hseat',
        List.mem_singleton.mpr hheld'⟩
    · refine ⟨.refl hown, ?_⟩
      exact findBooking_alike hbooking hbooking' trivial
    · intro seat seat' hseat hseat'
      exact ⟨.settle hown hrow (by rfl) _ hseat hseat', fun _ _ => trivial⟩

theorem cancelBooking_alike (hdb : Consistent db) (hdb' : Consistent db')
    (hown : ∀ b, ownBooking db' u b = ownBooking db u b) :
    (cancelBooking b u).Alike (SameChanges u db db') db db' := by
  refine findOwnBooking_alike (hown b) ?_
  cases hrow : ownBooking db u b with
  | none => trivial
  | some row =>
    have hrow' := (hown b).trans hrow
    obtain ⟨hbooking, -⟩ := ownBooking_eq_some.mp hrow
    obtain ⟨hbooking', -⟩ := ownBooking_eq_some.mp hrow'
    intro now
    refine settleTx_alike (v := fun booking => booking) hbooking hbooking' rfl rfl
      (fun _ => rfl) (fun _ _ => rfl) ?_ ?_ ?_
    · intro hstatus
      have hactive : row.status.Active := by simpa [BookingStatus.Active] using hstatus
      have hmem {seat : SeatRow} (hseat : seat.status = (Entry.of b row.status).seatStatus) :
          seat.status ∈ [SeatStatus.held, .booked] := by
        rw [hseat]
        obtain hs | hs := hactive
        · simp [hs, Entry.of, Entry.seatStatus]
        · simp [hs, Entry.of, Entry.seatStatus]
      obtain ⟨seat, hseat, hstatus⟩ := hdb.seat_of_active hbooking hactive
      obtain ⟨seat', hseat', hstatus'⟩ := hdb'.seat_of_active hbooking' hactive
      exact ⟨⟨seat, hseat, hmem hstatus⟩, seat', hseat', hmem hstatus'⟩
    · refine ⟨.refl hown, ?_⟩
      exact findBooking_alike hbooking hbooking' trivial
    · intro seat seat' hseat hseat'
      refine ⟨.settle hown hrow (by rfl) _ hseat hseat', ?_⟩
      -- what comes after the commit reads nothing
      intro r
      cases r with
      | resolved => exact fun _ _ _ => trivial
      | absent => exact fun _ _ => trivial
      | rejected => exact fun _ _ => trivial

/-- What is proved of the program holds of its runs. -/
theorem sameFor_of_alike {α : Type} {prog : Prog backend α}
    (hown : ∀ b, ownBooking db' u b = ownBooking db u b)
    (h : prog.Alike (SameChanges u db db') db db') : SameFor u db db' prog := by
  intro nextId clock es s hrun
  obtain ⟨s', hrun', halike⟩ := (Alike.initial (.refl hown) h).run hrun
  exact ⟨s', hrun', halike.procs, halike.kept⟩

/-- Nobody changes the database `db`. -/
def still (db : Db backend) : Discipline backend where
  inv db' := db' = db
  rely _ _ := True
  rely_refl _ := trivial
  rely_trans _ _ _ _ _ := trivial

/-- The promise to do nothing, and to end with one of two errors. -/
def refusing (b : ℕ) : Contract backend where
  guar _ _ _ := False
  act _ _ := False
  miss _ := False
  err e _ := e = .bookingNotFound b ∨ e = .infrastructure

/-- A program that begins with the ownership check finds no booking of anybody else. -/
theorem notFound_of_own {α : Type} {next : Option BookingRow → Prog backend α}
    (hown : ownBooking db u b = none) (hnext : next none = .fail (.bookingNotFound b)) :
    NotFound b db ((findOwnBooking b u).bind next) := by
  intro nextId clock es s hrun
  -- the caller is alone, so the look-up sees the database as it was
  have hsound : Sound (still db) (fun _ : Unit => refusing b) (fun _ _ _ => False) (fun _ => [])
      (State.initial db nextId clock fun _ => (findOwnBooking b u).bind next) := by
    refine Sound.initial rfl fun _ => ⟨fun _ _ => .inr rfl, ?_⟩
    intro r hr _
    have hnone : ownBooking r u b = none := by
      rw [show r = db from hr]
      exact hown
    show (next (ownBooking r u b)).Safe _ _ _ _
    rw [hnone, hnext]
    exact .inl rfl
  have hend := hsound.run hrun
  refine ⟨hend.inv, ?_, ?_⟩
  · intro r hp
    obtain ⟨κ, -, -, -, hfalse⟩ := hend.returned hp
    exact hfalse
  · intro e hp
    obtain ⟨κ, -, -, -, herr⟩ := hend.failed hp
    exact herr

/-- A user whose bookings are the same in two databases in which seats and bookings agree can list
the same bookings in both, and comes to the same end with every call about a booking. A booking that
is not one of the user's is not found, whether it is there or not. -/
theorem sameFor_of_own (hdb : Consistent db) (hdb' : Consistent db')
    (hown : ∀ b, ownBooking db' u b = ownBooking db u b) (b : ℕ) :
    (∀ rows, ListBookings db' u rows ↔ ListBookings db u rows) ∧
      SameFor u db db' (getBooking b u) ∧ SameFor u db db' (confirmBooking b u) ∧
      SameFor u db db' (cancelBooking b u) ∧
      (ownBooking db u b = none → NotFound b db (getBooking b u) ∧
        NotFound b db (confirmBooking b u) ∧ NotFound b db (cancelBooking b u)) := by
  refine ⟨?_, sameFor_of_alike hown (getBooking_alike hown),
    sameFor_of_alike hown (confirmBooking_alike hdb hdb' hown),
    sameFor_of_alike hown (cancelBooking_alike hdb hdb' hown), ?_⟩
  · intro rows
    have hrows (c : ℕ) (row : BookingRow) : db' (.booking c) = some row ∧ row.userId = u ↔
        db (.booking c) = some row ∧ row.userId = u := by
      rw [← ownBooking_eq_some, ← ownBooking_eq_some, hown]
    simp only [ListBookings, hrows]
  · intro hnone
    exact ⟨notFound_of_own hnone rfl, notFound_of_own hnone rfl, notFound_of_own hnone rfl⟩

end Calls

/-! ### Two databases -/

/-- A user's pending booking of a seat. -/
def pendingBooking (userId seatId : ℕ) : BookingRow where
  seatId
  userId
  status := .pending
  holdExpiresAt := some 300000
  createdAt := 0
  updatedAt := 0

/-- A free seat, and one that user 7 holds, for the booking 1. -/
def oneHold : Db backend
  | .seat i =>
      if i = 1 then some { status := .held, version := 1 }
      else if i = 2 then some { status := .available, version := 0 } else none
  | .booking b => if b = 1 then some (pendingBooking 7 1) else none
  | .user _ => some ()

/-- The same booking, on a seat with another past, and the other seat held by user 8. -/
def twoHolds : Db backend
  | .seat i =>
      if i = 1 then some { status := .held, version := 5 }
      else if i = 2 then some { status := .held, version := 1 } else none
  | .booking b =>
      if b = 1 then some (pendingBooking 7 1)
      else if b = 2 then some (pendingBooking 8 2) else none
  | .user _ => some ()

/-- Tables that show a ledger are consistent, if every booking has its seat. -/
theorem Represents.consistent {db : Db backend} {ledger : Ledger} (h : Represents db ledger)
    (hseat : ∀ (b : ℕ) (row : BookingRow), db (.booking b) = some row →
      (db (.seat row.seatId)).isSome) : Consistent db :=
  ⟨hseat, fun _ _ => h.seatAgrees⟩

theorem oneHold_consistent : Consistent oneHold := by
  have hrep : Represents oneHold fun i => if i = 1 then .held 1 else .free := by
    refine ⟨?_, ?_, ?_⟩
    · intro i row h
      grind [oneHold, Entry.seatStatus]
    · intro b row h _
      grind [oneHold, pendingBooking, Entry.of]
    · intro i b h
      split at h
      · rename_i hi
        cases hi
        cases h
        exact ⟨rfl, pendingBooking 7 1, rfl, rfl, .inl rfl⟩
      · cases h
  refine hrep.consistent ?_
  intro b row h
  grind [oneHold, pendingBooking]

theorem twoHolds_consistent : Consistent twoHolds := by
  have hrep : Represents twoHolds fun i =>
      if i = 1 then .held 1 else if i = 2 then .held 2 else .free := by
    refine ⟨?_, ?_, ?_⟩
    · intro i row h
      grind [twoHolds, Entry.seatStatus]
    · intro b row h _
      grind [twoHolds, pendingBooking, Entry.of]
    · intro i b h
      split at h
      · rename_i hi
        cases hi
        cases h
        exact ⟨rfl, pendingBooking 7 1, rfl, rfl, .inl rfl⟩
      · split at h
        · rename_i hi
          cases hi
          cases h
          exact ⟨rfl, pendingBooking 8 2, rfl, rfl, .inl rfl⟩
        · cases h
  refine hrep.consistent ?_
  intro b row h
  grind [twoHolds, pendingBooking]

theorem sameFor_of_own_twoHolds :
    SameFor 7 oneHold twoHolds (confirmBooking 1 7) ∧ NotFound 2 twoHolds (confirmBooking 2 7) := by
  have hown : ∀ b, ownBooking twoHolds 7 b = ownBooking oneHold 7 b := by
    intro b
    grind [ownBooking, oneHold, twoHolds, pendingBooking]
  have hown' : ownBooking twoHolds 7 2 = none := rfl
  obtain ⟨-, -, hconfirm, -⟩ := sameFor_of_own oneHold_consistent twoHolds_consistent hown 1
  obtain ⟨-, -, -, -, hnotFound⟩ :=
    sameFor_of_own twoHolds_consistent oneHold_consistent (fun b => (hown b).symm) 2
  exact ⟨hconfirm, (hnotFound hown').2.1⟩

end ScalableBooking.Booking
