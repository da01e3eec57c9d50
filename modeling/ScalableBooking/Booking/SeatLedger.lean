import ScalableBooking.Booking.Linearizable

/-!
# The booking module refines the seat ledger

The top of the refinement. The ledger says of every seat that it is free, held by a booking, or
booked by one, and a call is one step on it (`Ledger.Step`): a free seat is taken by a booking that
has no seat, the holder of a seat confirms it, and its owner gives it back. The entry of the seat
decides whether the call succeeds, but for calls about a seat or a booking that the caller cannot
see.

Each atomic call on the tables is such a step on the ledger that the tables show
(`Call.ledgerStep`). So any run of the calls, statement by statement, has the results of a
sequence of steps on the ledger, one for each call, in an order that agrees with the time
(`refinesLedger_of_run`).
-/

namespace ScalableBooking.Booking

open ReadCommitted

/-! ### Steps on the ledger -/

/-- What a call does to the ledger, with its outcome. -/
inductive Ledger.Step : Ledger → Call → Outcome backend Result → Ledger → Prop where
  | reserved {l : Ledger} {i b : ℕ} (u : ℕ) (row : BookingRow) (hfree : l i = .free)
      (hnew : ∀ j, (l j).owner ≠ some b) :
      Step l (.reserveSeat i u) (.ok (.reserved b row)) (Function.update l i (.held b))
  | taken {l : Ledger} {i : ℕ} (u : ℕ) (htaken : l i ≠ .free) :
      Step l (.reserveSeat i u) (.error (BookingError.seatUnavailable i)) l
  | noSeat {l : Ledger} {i : ℕ} (u : ℕ) (hfree : l i = .free) :
      Step l (.reserveSeat i u) (.error (BookingError.seatNotFound i)) l
  | confirmed {l : Ledger} {i b : ℕ} (u : ℕ) (row : BookingRow) (hheld : l i = .held b) :
      Step l (.confirmBooking b u) (.ok (.confirmed b row)) (Function.update l i (.booked b))
  | notHeld {l : Ledger} {b : ℕ} (u : ℕ) (status : String) (hnot : ∀ i, l i ≠ .held b) :
      Step l (.confirmBooking b u) (.error (BookingError.bookingNotConfirmable b status)) l
  | cancelled {l : Ledger} {i b : ℕ} (u : ℕ) (row : BookingRow) (howner : (l i).owner = some b) :
      Step l (.cancelBooking b u) (.ok (.cancelled b row)) (Function.update l i .free)
  | notOwner {l : Ledger} {b : ℕ} (u : ℕ) (status : String) (hnot : ∀ i, (l i).owner ≠ some b) :
      Step l (.cancelBooking b u) (.error (BookingError.bookingNotCancellable b status)) l
  | notYours {l : Ledger} {b : ℕ} (u : ℕ) {call : Call}
      (hcall : call = .confirmBooking b u ∨ call = .cancelBooking b u) :
      Step l call (.error (BookingError.bookingNotFound b)) l
  | expired {l : Ledger} {i b : ℕ} (row : BookingRow) (seat : SeatRow) (hheld : l i = .held b) :
      Step l (.expireHold b) (.ok (.expired (some (row, some seat)))) (Function.update l i .free)
  | nothingToExpire {l : Ledger} {b : ℕ} (hnot : ∀ i, l i ≠ .held b) :
      Step l (.expireHold b) (.ok (.expired none)) l

/-- The steps of the calls in `order`, one after another. -/
def Ledger.Executes {P : Type} (calls : P → Call) (l : Ledger) :
    List (P × Outcome backend Result) → Ledger → Prop
  | [], l' => l' = l
  | x :: order, l' => ∃ l₁, l.Step (calls x.1) x.2 l₁ ∧ Ledger.Executes calls l₁ order l'

/-! ### Atomic calls are steps -/

section Steps

variable {db db' : Db backend} {l : Ledger} {b i : ℕ} {booking booking' : BookingRow}
  {seat : SeatRow}

/-- The tables show the new entry of an active booking that has moved. -/
theorem Represents.settle_active (hrep : Represents db l)
    (hbooking : db (.booking b) = some booking) (hactive : booking.status.Active)
    (hsame : booking'.seatId = booking.seatId) :
    Represents (Booking.settle db b booking' (seat.moved (Entry.of b booking'.status).seatStatus))
      (Function.update l booking.seatId (Entry.of b booking'.status)) := by
  have hentry := hrep.booking b booking hbooking hactive
  rw [← hsame]
  refine hrep.settle rfl ?_ ?_
  · intro c hc
    rw [hsame, hentry, Entry.owner_of hactive] at hc
    exact (Option.some.inj hc).symm
  · intro j hj
    obtain ⟨-, row, hrow, rfl, -⟩ := hrep.owner j b hj
    rw [hbooking] at hrow
    cases hrow
    exact hsame.symm

/-- The tables show the entry of a new booking. -/
theorem Represents.settle_new (hrep : Represents db l) (hfree : l booking.seatId = .free)
    (hnew : db (.booking b) = none) (hpending : booking.status = .pending) :
    Represents (Booking.settle db b booking (seat.moved .held))
      (Function.update l booking.seatId (.held b)) := by
  have hstatus : (seat.moved .held).status = (Entry.of b booking.status).seatStatus := by
    rw [hpending]
    rfl
  have hsettled : Represents (Booking.settle db b booking (seat.moved .held))
      (Function.update l booking.seatId (Entry.of b booking.status)) := by
    refine hrep.settle hstatus ?_ ?_
    · intro c hc
      rw [hfree] at hc
      cases hc
    · intro j hj
      obtain ⟨-, row, hrow, -⟩ := hrep.owner j b hj
      rw [hnew] at hrow
      cases hrow
  rwa [hpending] at hsettled

/-- A booking that is not there has no seat. -/
theorem Represents.owner_ne_of_none (hrep : Represents db l) (hnew : db (.booking b) = none)
    (j : ℕ) : (l j).owner ≠ some b := by
  intro hj
  obtain ⟨-, row, hrow, -⟩ := hrep.owner j b hj
  rw [hnew] at hrow
  cases hrow

/-- Neither has one that is not active. -/
theorem Represents.owner_ne_of_row (hrep : Represents db l)
    (hbooking : db (.booking b) = some booking) (hactive : ¬booking.status.Active) (j : ℕ) :
    (l j).owner ≠ some b := by
  intro hj
  obtain ⟨-, row, hrow, -, hrowActive⟩ := hrep.owner j b hj
  rw [hbooking] at hrow
  cases hrow
  exact hactive hrowActive

/-- One that is not pending holds no seat. -/
theorem Represents.ne_held (hrep : Represents db l)
    (hnot : ∀ row : BookingRow, db (.booking b) = some row → row.status ≠ .pending) (j : ℕ) :
    l j ≠ .held b := by
  intro hj
  obtain ⟨row, hrow, -, hpending⟩ := (hrep.stands_iff (.inl rfl)).mpr hj
  exact hnot row hrow hpending

/-- A seat that is not there is free in the ledger. -/
theorem Represents.free_of_none (hrep : Represents db l) (hseat : db (.seat i) = none) :
    l i = .free := by
  cases hentry : l i with
  | free => rfl
  | held b =>
    have hsome := (hrep.owner i b (by rw [hentry]; rfl)).1
    rw [hseat] at hsome
    cases hsome
  | booked b =>
    have hsome := (hrep.owner i b (by rw [hentry]; rfl)).1
    rw [hseat] at hsome
    cases hsome

/-- One that is not available is not. -/
theorem Represents.ne_free (hrep : Represents db l) (hseat : db (.seat i) = some seat)
    (hstatus : seat.status ≠ .available) : l i ≠ .free := by
  intro hfree
  have hshown := hrep.seat i seat hseat
  rw [hfree] at hshown
  exact hstatus hshown

/-- A call that resolves makes its step on the ledger. -/
theorem Call.ledgerStep_of_resolves {call : Call} {r : Result} (hrep : Represents db l)
    (h : call.Resolves db db' r) : ∃ l', l.Step call (.ok r) l' ∧ Represents db' l' := by
  cases call with
  | reserveSeat seatId userId =>
    obtain ⟨-, b, holdExpiresAt, now, seat, rfl, hnew, hseat, hstatus, rfl⟩ := h
    have hfree := hrep.free_of_available hseat hstatus
    exact ⟨_, .reserved userId _ hfree (hrep.owner_ne_of_none hnew),
      hrep.settle_new hfree hnew rfl⟩
  | confirmBooking b userId =>
    obtain ⟨-, booking, now, rfl, hbooking, hstatus, -, seat, -, -, rfl⟩ := h
    rw [List.mem_singleton] at hstatus
    have hentry := hrep.booking b booking hbooking (.inl hstatus)
    rw [hstatus] at hentry
    exact ⟨_, .confirmed userId _ hentry, hrep.settle_active hbooking (.inl hstatus) rfl⟩
  | cancelBooking b userId =>
    obtain ⟨-, booking, now, rfl, hbooking, hstatus, -, seat, -, -, rfl⟩ := h
    have hactive : booking.status.Active := by simpa [BookingStatus.Active] using hstatus
    have howner : (l booking.seatId).owner = some b := by
      rw [hrep.booking b booking hbooking hactive]
      exact Entry.owner_of hactive
    exact ⟨_, .cancelled userId _ howner, hrep.settle_active hbooking hactive rfl⟩
  | expireHold b =>
    obtain ⟨rfl, rfl, hnot⟩ | ⟨booking, seat, rfl, hbooking, hstatus, -, -, rfl⟩ := h
    · exact ⟨l, .nothingToExpire (hrep.ne_held hnot), hrep⟩
    · have hentry := hrep.booking b booking hbooking (.inl hstatus)
      rw [hstatus] at hentry
      exact ⟨_, .expired _ _ hentry, hrep.settle_active hbooking (.inl hstatus) rfl⟩

/-- A call that rejects leaves the ledger alone, which has the reason. -/
theorem Call.ledgerStep_of_rejects {call : Call} {e : BookingError} (hrep : Represents db l)
    (h : call.Rejects db e) : l.Step call (.error e) l := by
  cases call with
  | reserveSeat seatId userId =>
    obtain ⟨hseat, rfl⟩ | ⟨seat, hseat, hstatus, rfl⟩ := h
    · exact .noSeat userId (hrep.free_of_none hseat)
    · exact .taken userId (hrep.ne_free hseat hstatus)
  | confirmBooking b userId =>
    obtain ⟨-, rfl⟩ | ⟨row, hrow, -, hstatus, rfl⟩ := h
    · exact .notYours userId (.inl rfl)
    · refine .notHeld userId _ (hrep.ne_held ?_)
      intro row' hrow'
      rw [hrow] at hrow'
      cases hrow'
      exact hstatus
  | cancelBooking b userId =>
    obtain ⟨-, rfl⟩ | ⟨row, hrow, -, hactive, rfl⟩ := h
    · exact .notYours userId (.inr rfl)
    · exact .notOwner userId _ (hrep.owner_ne_of_row hrow hactive)
  | expireHold b => exact h.elim

/-- An atomic call on the tables is a step on the ledger they show. -/
theorem Call.ledgerStep {call : Call} {o : Outcome backend Result} (hrep : Represents db l)
    (h : call.atomic db db' o) : ∃ l', l.Step call o l' ∧ Represents db' l' := by
  cases o with
  | ok r => exact Call.ledgerStep_of_resolves hrep h
  | error e =>
    obtain ⟨rfl, hrejects⟩ := h
    exact ⟨l, Call.ledgerStep_of_rejects hrep hrejects, hrep⟩

/-- So is a sequence of them a sequence of steps. -/
theorem ledgerExecutes {P : Type} {calls : P → Call} {order : List (P × Outcome backend Result)}
    (hrep : Represents db l) (h : Executes (fun p => (calls p).atomic) db order db') :
    ∃ l', l.Executes calls order l' ∧ Represents db' l' := by
  induction order generalizing db l with
  | nil =>
    cases h
    exact ⟨l, rfl, hrep⟩
  | cons x order ih =>
    obtain ⟨db₁, hx, hrest⟩ := h
    obtain ⟨l₁, hstep, hrep₁⟩ := Call.ledgerStep hrep hx
    obtain ⟨l', hexec, hrep'⟩ := ih hrep₁ hrest
    exact ⟨l', ⟨l₁, hstep, hexec⟩, hrep'⟩

end Steps

/-! ### Runs -/

/-- **The use cases refine the ledger.** In any run from a database before the first booking the
calls have the outcomes of steps on the ledger, one after another from the empty one, and the
tables show the ledger at the end. -/
theorem refinesLedger_of_run {P : Type} [DecidableEq P] {env : Env} {calls : P → Call}
    {db : Db backend} {nextId clock : ℕ} (h : Untouched db) {es : List (Event backend P)}
    {s : State backend P Result} (hrun : (start env calls db nextId clock).run es = some s) :
    ∃ (order : List (P × Outcome backend Result)) (ledger : Ledger),
      (order.map Prod.fst).Nodup ∧ Placed es order ∧
      (∀ p o, (s.procs p).outcome? = some o → o ≠ .error BookingError.infrastructure →
        (p, o) ∈ order) ∧
      Ledger.Executes calls (fun _ => .free) order ledger ∧ Represents s.db ledger := by
  obtain ⟨order, horder⟩ := exists_linearization (start_sound h)
    (fun p => (calls p).linear env) hrun
  obtain ⟨ledger, hexec, hrep⟩ := ledgerExecutes h.represents horder.executes
  exact ⟨order, ledger, horder.nodup, horder.placed, horder.ended, hexec, hrep⟩

theorem refinesLedger_of_run_rivals :
    ∃ s, (start Env.default rivals oneSeat 1 0).run closeCall = some s ∧
      ∃ (order : List (Bool × Outcome backend Result)) (ledger : Ledger),
        (order.map Prod.fst).Nodup ∧ Placed closeCall order ∧
        (∀ p o, (s.procs p).outcome? = some o → o ≠ .error BookingError.infrastructure →
          (p, o) ∈ order) ∧
        Ledger.Executes rivals (fun _ => .free) order ledger ∧ Represents s.db ledger := by
  have hrun : (start Env.default rivals oneSeat 1 0).run closeCall = some _ := rfl
  exact ⟨_, hrun, refinesLedger_of_run untouched_oneSeat hrun⟩

end ScalableBooking.Booking
