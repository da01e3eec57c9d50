import ScalableBooking.Booking.Contracts

/-!
# What a call reports

A client is told that its call succeeded exactly if the transaction was committed. That holds
of one call on its own, on any database, whatever else runs and whichever of the awaited calls
fail (`reported_of_run`): a call that resolves has committed one transaction, which took the
seat and the booking through the transition of that call, and a call that rejects has committed
nothing. After the commit there is no way left to reject: what follows is sent to the queue and
the broker, whose failures are caught.

No invariant of the database is used. The proofs are the obligations of the call under the free
discipline, with a contract that keeps account of the commits and says what each of them does
(`Call.account`).
-/

namespace ScalableBooking.Booking

open ReadCommitted

/-! ### Transitions -/

/-- A call that a client makes. -/
def Call.IsRequest : Call → Prop
  | reserveSeat _ _ | confirmBooking _ _ | cancelBooking _ _ => True
  | expireHold _ => False

/-- The rows of the booking `b` and its seat before and after: the booking goes from one of the
states `from_` to `booking'`, and the seat from one of the states `seatFrom` to `target`. No
other row changes. -/
def Moved (b : ℕ) (booking booking' : BookingRow) (from_ : List BookingStatus)
    (seatFrom : List SeatStatus) (target : SeatStatus) (db db' : Db backend) : Prop :=
  db (.booking b) = some booking ∧ booking.status ∈ from_ ∧ booking'.seatId = booking.seatId ∧
    ∃ seat : SeatRow, db (.seat booking.seatId) = some seat ∧ seat.status ∈ seatFrom ∧
      db' = settle db b booking' (seat.moved target)

/-- The transition that a request reports when it resolves with `r`, as a change of the
database. -/
def Call.Transition : Call → Result → Db backend → Db backend → Prop
  | reserveSeat seatId userId, r, db, db' =>
      ∃ (b holdExpiresAt now : ℕ) (seat : SeatRow),
        let booking : BookingRow :=
          { seatId, userId, status := .pending, holdExpiresAt := some holdExpiresAt,
            createdAt := now, updatedAt := now }
        r = .reserved b booking ∧ db (.booking b) = none ∧ db (.seat seatId) = some seat ∧
          seat.status = .available ∧ db' = settle db b booking (seat.moved .held)
  | confirmBooking b _, r, db, db' => ∃ (booking : BookingRow) (now : ℕ),
      let booking' := { booking with status := .confirmed, updatedAt := now }
      r = .confirmed b booking' ∧ Moved b booking booking' [.pending] [.held] .booked db db'
  | cancelBooking b _, r, db, db' => ∃ (booking : BookingRow) (now : ℕ),
      let booking' := { booking with status := .cancelled, updatedAt := now }
      r = .cancelled b booking' ∧
        Moved b booking booking' [.pending, .confirmed] [.held, .booked] .available db db'
  | expireHold _, _, _, _ => False

/-- The change from `db` to `db'` is the one that the message announces under its key. -/
def Message.Announces (message : Message) (db db' : Db backend) : Prop :=
  message.key = toString message.payload.bookingId ∧
    ¬message.type.Reached message.payload.bookingId db ∧
      ∃ row : BookingRow, db' (.booking message.payload.bookingId) = some row ∧
        row.status = message.type.status

/-- The contract that keeps account of the commits: a call announces the one it has made, and
fails only if it has changed nothing. -/
def accounting : Contract backend where
  guar _ _ _ := True
  act x κ := ∀ message, x = .send message →
    ∃ db db', κ.commits = [(db, db')] ∧ message.Announces db db'
  miss _ := True
  err _ κ := ∀ c ∈ κ.commits, c.2 = c.1

/-- What a commit of the call does to the database, whatever is in it: its transition, or nothing.
An expiry takes a pending booking with it even if the seat is not held. -/
def Call.Commits : Call → Db backend → Db backend → Prop
  | reserveSeat seatId userId, db, db' => ∃ r, (reserveSeat seatId userId).Transition r db db'
  | confirmBooking b userId, db, db' =>
      db' = db ∨ ∃ r, (confirmBooking b userId).Transition r db db'
  | cancelBooking b userId, db, db' =>
      db' = db ∨ ∃ r, (cancelBooking b userId).Transition r db db'
  | expireHold b, db, db' => db' = db ∨ ∃ booking : BookingRow,
      let booking' := { booking with status := .expired }
      Moved b booking booking' [.pending] [.held] .available db db' ∨
        db (.booking b) = some booking ∧ booking.status = .pending ∧
          db' = Function.update db (.booking b) (some booking')

/-- The same contract, with what the commits do. -/
def Call.account (call : Call) : Contract backend :=
  { accounting with guar := fun _ => call.Commits }

theorem Call.account_implies (call : Call) : call.account.Implies accounting where
  guar _ _ _ _ := trivial
  act _ _ h := h
  miss _ h := h
  err _ _ h := h

/-- A request resolves after one commit, which made its transition. -/
def Call.Accounts (call : Call) (r : Result) (κ : Past backend) : Prop :=
  ∃ db db', κ.commits = [(db, db')] ∧ call.Transition r db db'

/-! ### After the commit -/

section Effects

variable {call : Call} {κ : Past backend} {b : ℕ}

/-- With nothing changed, any error is allowed. -/
theorem breakable_of_unchanged {commits : List (Db backend × Db backend)}
    (h : ∀ c ∈ commits, c.2 = c.1) : call.account.Breakable commits := by
  intro κ hκ c hc
  rw [hκ] at hc
  exact h c hc

theorem unchanged_nil : ∀ c ∈ ([] : List (Db backend × Db backend)), c.2 = c.1 := by
  simp

theorem unchanged_self {db : Db backend} : ∀ c ∈ [(db, db)], c.2 = c.1 := by
  simp

theorem scheduleHoldExpiry_accounts {holdExpiresAt : ℕ} {Q : Reply → Past backend → Prop}
    (h : ∀ r κ', κ'.commits = κ.commits → Q r κ') :
    (scheduleHoldExpiry b holdExpiresAt).Safe (.free backend) call.account Q κ := by
  intro now _ db _ _
  refine ⟨?_, fun r => h r _ rfl⟩
  intro message heq
  cases heq

theorem removeHoldExpiry_accounts {Q : Unit → Past backend → Prop}
    (h : ∀ κ', κ'.commits = κ.commits → Q () κ') :
    (removeHoldExpiry b).Safe (.free backend) call.account Q κ := by
  intro db _ _
  refine ⟨?_, ?_⟩
  · intro message heq
    cases heq
  · intro r
    cases r with
    | resolved =>
      intro db' _ _
      refine ⟨?_, fun _ => h _ rfl⟩
      intro message heq
      cases heq
    | absent => exact h _ rfl
    | rejected => exact h _ rfl

theorem publishBookingEvent_accounts {type : EventType} {payload : Payload}
    {db db' : Db backend} {Q : Reply → Past backend → Prop} (hcommits : κ.commits = [(db, db')])
    (hbefore : ∀ row : BookingRow, db (.booking payload.bookingId) = some row →
      ¬type.status.CanBecome row.status)
    (hafter : ∃ row : BookingRow, db' (.booking payload.bookingId) = some row ∧
      row.status = type.status)
    (h : ∀ r κ', κ'.commits = κ.commits → Q r κ') :
    (publishBookingEvent type payload).Safe (.free backend) call.account Q κ := by
  intro now _ db₁ _ _
  refine ⟨?_, fun r => h r _ rfl⟩
  rintro message heq
  cases heq
  refine ⟨db, db', hcommits, rfl, ?_, hafter⟩
  rintro ⟨row, hrow, hstatus⟩
  exact hbefore row hrow hstatus

end Effects

/-! ### The requests -/

section Requests

variable {seen : Db backend} {time : ℕ}

theorem reserveSeat_accounts (env : Env) (seatId userId : ℕ) :
    (reserveSeat env seatId userId).Safe (.free backend) (Call.reserveSeat seatId userId).account
      (Call.reserveSeat seatId userId).Accounts ⟨seen, time, []⟩ := by
  simp only [reserveSeat, findSeatById, Prog.bind_eq, Prog.bind, Prog.Safe]
  refine ⟨breakable_of_unchanged unchanged_nil, ?_⟩
  intro db₀ _ _
  cases (db₀ (.seat seatId)).filter fun _ => true with
  | none => exact unchanged_nil
  | some existing =>
    intro now _
    refine ⟨breakable_of_unchanged unchanged_nil, ?_⟩
    intro start _
    refine reserveSeatTx_safe trivial (fun _ _ _ => unchanged_nil) ?_
    intro db seat b _ hseat hstatus hnew
    have hmade : (Call.reserveSeat seatId userId).Transition _ db _ :=
      ⟨b, now + env.holdDurationMs, start, seat, rfl, hnew, hseat, hstatus, rfl⟩
    refine ⟨trivial, trivial, ⟨_, hmade⟩, ?_⟩
    -- whatever the queue and the broker do, the call resolves
    rw [Prog.safe_bind]
    refine scheduleHoldExpiry_accounts ?_
    intro _ κ₁ hκ₁
    rw [Prog.safe_bind]
    refine publishBookingEvent_accounts hκ₁ ?_ ⟨_, settle_booking_self, rfl⟩ ?_
    · intro row hrow
      simp [hnew] at hrow
    · intro _ κ₂ hκ₂
      exact ⟨db, _, hκ₂.trans hκ₁, hmade⟩

theorem confirmBooking_accounts (b userId : ℕ) :
    (confirmBooking b userId).Safe (.free backend) (Call.confirmBooking b userId).account
      (Call.confirmBooking b userId).Accounts ⟨seen, time, []⟩ := by
  simp only [confirmBooking, findOwnBooking, Prog.bind_eq, Prog.bind, Prog.Safe]
  refine ⟨breakable_of_unchanged unchanged_nil, ?_⟩
  intro db₀ _ _
  cases (db₀ (.booking b)).filter fun row => decide (row.userId = userId) with
  | none => exact unchanged_nil
  | some existing =>
    refine ⟨breakable_of_unchanged unchanged_nil, ?_⟩
    intro start _ now hnow
    refine settleTx_safe (v := fun booking _ => booking) (fun _ => rfl) rfl (fun _ => rfl)
      (fun _ _ => rfl) trivial ?_ ?_ ?_
    · -- no row matched: an empty transaction is committed, and the call rejects
      intro db db' _ _ _ _
      exact ⟨.inl rfl, breakable_of_unchanged unchanged_self, fun _ _ _ => unchanged_self⟩
    · intro db db₁ booking _ _ _ _ _
      -- the seat is lost, and with it the transaction
      exact ⟨trivial, unchanged_nil⟩
    · intro db booking seat _ hbooking hstatus hseat hseatStatus
      have hmade : (Call.confirmBooking b userId).Transition _ db _ :=
        ⟨booking, now, rfl, hbooking, hstatus, rfl, seat, hseat, hseatStatus, rfl⟩
      refine ⟨trivial, trivial, .inr ⟨_, hmade⟩, ?_⟩
      simp only [Prog.safe_bind]
      refine publishBookingEvent_accounts rfl ?_ ⟨_, settle_booking_self, rfl⟩ ?_
      · intro row hrow
        rw [hbooking] at hrow
        cases hrow
        rw [List.mem_singleton.mp hstatus]
        simp [EventType.status, BookingStatus.CanBecome]
      · intro _ κ₂ hκ₂
        exact ⟨db, _, hκ₂, hmade⟩

theorem cancelBooking_accounts (b userId : ℕ) :
    (cancelBooking b userId).Safe (.free backend) (Call.cancelBooking b userId).account
      (Call.cancelBooking b userId).Accounts ⟨seen, time, []⟩ := by
  simp only [cancelBooking, findOwnBooking, Prog.bind_eq, Prog.bind, Prog.Safe]
  refine ⟨breakable_of_unchanged unchanged_nil, ?_⟩
  intro db₀ _ _
  cases (db₀ (.booking b)).filter fun row => decide (row.userId = userId) with
  | none => exact unchanged_nil
  | some existing =>
    refine ⟨breakable_of_unchanged unchanged_nil, ?_⟩
    intro start _ now hnow
    refine settleTx_safe (v := fun booking _ => booking) (fun _ => rfl) rfl (fun _ => rfl)
      (fun _ _ => rfl) trivial ?_ ?_ ?_
    · intro db db' _ _ _ _
      exact ⟨.inl rfl, breakable_of_unchanged unchanged_self, fun _ _ _ => unchanged_self⟩
    · intro db db₁ booking _ _ _ _ _
      exact ⟨trivial, unchanged_nil⟩
    · intro db booking seat _ hbooking hstatus hseat hseatStatus
      have hmade : (Call.cancelBooking b userId).Transition _ db _ :=
        ⟨booking, now, rfl, hbooking, hstatus, rfl, seat, hseat, hseatStatus, rfl⟩
      refine ⟨trivial, trivial, .inr ⟨_, hmade⟩, ?_⟩
      simp only [Prog.safe_bind]
      -- after the commit: the job, then the event, and neither can make the call reject
      refine removeHoldExpiry_accounts ?_
      intro κ₁ hκ₁
      refine publishBookingEvent_accounts hκ₁ ?_ ⟨_, settle_booking_self, rfl⟩ ?_
      · intro row hrow
        rw [hbooking] at hrow
        cases hrow
        -- neither active state is a cancelled one
        rintro (hcancelled : booking.status = .cancelled)
        simp [hcancelled] at hstatus
      · intro _ κ₂ hκ₂
        exact ⟨db, _, hκ₂.trans hκ₁, hmade⟩

/-- An expiry announces nothing, and cannot fail after its commit either. -/
theorem expireHold_accounts (b : ℕ) :
    (expireHold b).Safe (.free backend) (Call.expireHold b).account (fun _ _ => True)
      ⟨seen, time, []⟩ := by
  refine ⟨breakable_of_unchanged unchanged_nil, ?_⟩
  intro start _
  refine settleTx_safe (v := fun booking seat => (booking, some seat)) (fun _ => rfl) rfl
    (fun _ => rfl) (fun _ _ => rfl) trivial ?_ ?_ ?_
  · intro _ _ _ _ _ _
    exact ⟨.inl rfl, trivial⟩
  · intro _ db₁ booking _ hbooking _ hstatus _
    refine ⟨trivial, ?_⟩
    intro db _ _ hw
    -- the seat was not held, and the booking alone is committed
    refine ⟨trivial, trivial, .inr ⟨booking, .inr ⟨?_, List.mem_singleton.mp hstatus, ?_⟩⟩, trivial⟩
    · rw [hw.of_write, hbooking]
    · rw [Writes.overlay_write, Writes.overlay_empty]
  · intro db booking seat _ hbooking hstatus hseat hseatStatus
    exact ⟨trivial, trivial,
      .inr ⟨booking, .inl ⟨hbooking, hstatus, rfl, seat, hseat, hseatStatus, rfl⟩⟩, trivial⟩

/-- Every call keeps account of its commits and of what they do, on any database. -/
theorem Call.account_safe (env : Env) (call : Call) :
    (call.code env).Safe (.free backend) call.account
      (fun r κ => call.IsRequest → call.Accounts r κ) ⟨seen, time, []⟩ := by
  cases call with
  | reserveSeat seatId userId =>
    simpa [IsRequest, code] using reserveSeat_accounts env seatId userId
  | confirmBooking b userId => simpa [IsRequest, code] using confirmBooking_accounts b userId
  | cancelBooking b userId => simpa [IsRequest, code] using cancelBooking_accounts b userId
  | expireHold b => simpa [IsRequest, code] using expireHold_accounts b

/-- Every call keeps account of its commits, on any database. -/
theorem Call.accounts (env : Env) (call : Call) :
    (call.code env).Safe (.free backend) accounting
      (fun r κ => call.IsRequest → call.Accounts r κ) ⟨seen, time, []⟩ :=
  (call.account_safe env).weaken call.account_implies

end Requests

/-! ### Runs -/

/-- What a request reports in the state `s` is what it has done, if `commits` are its commits. -/
structure Reported {P : Type} [DecidableEq P] (call : Call) (p : P)
    (commits : List (Db backend × Db backend)) (s : State backend P Result) : Prop where
  /-- It resolves only after one commit, which took seat and booking through its transition. -/
  resolved : ∀ r, s.procs p = .outside (.ret r) →
    ∃ db db', commits = [(db, db')] ∧ call.Transition r db db'
  /-- It rejects only with no row changed by a commit of its own, and none left uncommitted. -/
  rejected : ∀ e, s.procs p = .outside (.fail e) →
    (∀ c ∈ commits, c.2 = c.1) ∧ ∀ (k : RowId) (row : k.Row), s.dirty k ≠ some (p, row)

section Runs

variable {P : Type} [DecidableEq P] {env : Env} {db : Db backend} {nextId clock : ℕ}
  {code : P → Prog backend Result} {p : P} {s : State backend P Result}

/-- All calls keep account of their commits. -/
theorem start_accounts {calls : P → Call} :
    Sound (.free backend) (fun _ => accounting)
      (fun p r κ => (calls p).IsRequest → (calls p).Accounts r κ) (fun _ => [])
      (start env calls db nextId clock) :=
  Sound.initial trivial fun p => (calls p).accounts env

/-- So does one among processes that promise nothing. -/
theorem initial_accounts {call : Call} (hcode : code p = call.code env) :
    Sound (.free backend) (fun q => if q = p then accounting else .free backend)
      (fun q r κ => q = p → call.IsRequest → call.Accounts r κ) (fun _ => [])
      (State.initial db nextId clock code) := by
  refine Sound.initial trivial ?_
  intro q
  by_cases hq : q = p
  · simpa [hq, hcode] using call.accounts env
  · simpa [hq] using Prog.safe_free (code q) _

/-- A process that holds no row has none of its own written. -/
theorem not_dirty_of_own {k : RowId} (h : s.own p = Writes.empty) (row : k.Row) :
    s.dirty k ≠ some (p, row) := by
  intro hd
  have := congrFun h k
  rw [State.own_of_self hd] at this
  cases this

/-- In every run, from any database and among any other processes, a request reports what it has
done. -/
theorem reported_of_run {call : Call} (hcall : call.IsRequest) (hcode : code p = call.code env)
    {es : List (Event backend P)}
    (hrun : (State.initial db nextId clock code).run es = some s) :
    Reported call p ((State.initial db nextId clock code).history p es) s := by
  have hsound := Sound.run (initial_accounts hcode) hrun
  refine ⟨?_, ?_⟩
  · intro r hp
    obtain ⟨κ, -, hcommits, -, hret⟩ := hsound.returned hp
    obtain ⟨d, d', hd, htransition⟩ := hret rfl hcall
    exact ⟨d, d', hcommits.symm.trans hd, htransition⟩
  · intro e hp
    obtain ⟨κ, -, hcommits, hown, herr⟩ := hsound.failed hp
    refine ⟨by simpa [accounting, hcommits] using herr, ?_⟩
    intro k row
    exact not_dirty_of_own hown row

end Runs

/-- A reservation alone. -/
def lonely : Unit → Prog backend Result := fun _ => reserveSeat Env.default 1 7

/-- Its job and its event both fail. -/
def unheard : List (Event backend Unit) :=
  [.run (), .run (), .run (), .run (), .run (), .run (), .run (), .run (), .reply () .rejected,
    .run (), .reply () .rejected]

theorem reported_of_run_unheard :
    ∃ s, (State.initial oneSeat 1 0 lonely).run unheard = some s ∧
      (∃ r, s.procs () = .outside (.ret r)) ∧
      Reported (.reserveSeat 1 7) () ((State.initial oneSeat 1 0 lonely).history () unheard) s := by
  have hrun : (State.initial oneSeat 1 0 lonely).run unheard = some _ := rfl
  have hcode : lonely () = (Call.reserveSeat 1 7).code Env.default := rfl
  have hcall : (Call.reserveSeat 1 7).IsRequest := trivial
  exact ⟨_, hrun, ⟨_, rfl⟩, reported_of_run hcall hcode hrun⟩

/-- A reservation and the confirmation of the booking it makes. -/
def reserveAndConfirm : Bool → Call
  | true => .reserveSeat 1 7
  | false => .confirmBooking 1 7

end ScalableBooking.Booking
