import Mathlib.Data.List.Infix
import ScalableBooking.Booking.Outcome

/-!
# Seats are conserved

The row of a seat keeps the books of its own history. If all seats are available at the start,
then in every run, whatever is interleaved or aborted, the version of a seat has grown by the
number of its committed reservations, confirmations, cancellations and expiries, and the
reservations are the cancellations and expiries together, and one more as long as the seat is not
available (`conservation_of_run`). A version of a seat occurs with one status only.

The number of a kind is counted along the run (`tally`), from the commits and the bookings they
change. One commit either is no transition of the seat and leaves its row alone, or it is one and
takes the row from a source to the target of its kind, with the version one higher
(`Call.Commits.seatRow`).
-/

namespace ScalableBooking.Booking

open ReadCommitted

/-! ### One commit -/

/-- The four transitions of a seat. -/
inductive SeatChange where
  | reservation
  | confirmation
  | cancellation
  | expiry
deriving DecidableEq, Repr

namespace SeatChange

/-- The states a seat can be in before. -/
def sources : SeatChange → List SeatStatus
  | reservation => [.available]
  | confirmation => [.held]
  | cancellation => [.held, .booked]
  | expiry => [.held]

/-- The state it is in afterwards. -/
def target : SeatChange → SeatStatus
  | reservation => .held
  | confirmation => .booked
  | cancellation => .available
  | expiry => .available

/-- By how much the number of seats taken changes. -/
def gain : SeatChange → ℤ
  | reservation => 1
  | confirmation => 0
  | cancellation => -1
  | expiry => -1

end SeatChange

/-- How many seats a seat in this state takes up. -/
def SeatStatus.taken (status : SeatStatus) : ℤ := if status = .available then 0 else 1

theorem SeatChange.taken_target {change : SeatChange} {status : SeatStatus}
    (h : status ∈ change.sources) : change.target.taken = status.taken + change.gain := by
  cases change <;> cases status <;> simp [sources] at h <;> rfl

/-- The transition that a call is for. -/
def Call.change : Call → SeatChange
  | reserveSeat _ _ => .reservation
  | confirmBooking _ _ => .confirmation
  | cancelBooking _ _ => .cancellation
  | expireHold _ => .expiry

/-- The booking `b` is one of the seat `i`. -/
def OnSeat (db : Db backend) (b i : ℕ) : Prop :=
  Option.map BookingRow.seatId (db (.booking b)) = some i

instance (db : Db backend) (b i : ℕ) : Decidable (OnSeat db b i) :=
  inferInstanceAs (Decidable (_ = _))

/-- The commit of the call that takes `db` to `db'` is a transition of the seat `i`: a reservation
of it, or a change of a booking of it. An expiry is one if it has released the seat, too. -/
def Call.Counts (i : ℕ) (db db' : Db backend) : Call → Prop
  | reserveSeat seatId _ => seatId = i
  | confirmBooking b _ | cancelBooking b _ =>
      OnSeat db b i ∧ db' (.booking b) ≠ db (.booking b)
  | expireHold b =>
      OnSeat db b i ∧ db' (.booking b) ≠ db (.booking b) ∧ db' (.seat i) ≠ db (.seat i)

instance (i : ℕ) (db db' : Db backend) : (call : Call) → Decidable (call.Counts i db db')
  | .reserveSeat seatId _ => inferInstanceAs (Decidable (seatId = i))
  | .confirmBooking b _ | .cancelBooking b _ =>
      inferInstanceAs (Decidable (OnSeat db b i ∧ db' (.booking b) ≠ db (.booking b)))
  | .expireHold b =>
      inferInstanceAs (Decidable (OnSeat db b i ∧ db' (.booking b) ≠ db (.booking b) ∧
        db' (.seat i) ≠ db (.seat i)))

section Commit

variable {db db' : Db backend} {b i : ℕ} {seat : SeatRow}

/-- What a transition of the booking `b` does to the row of the seat `i`. -/
theorem Moved.seatRow {booking booking' : BookingRow} {from_ : List BookingStatus}
    {seatFrom : List SeatStatus} {target : SeatStatus}
    (h : Moved b booking booking' from_ seatFrom target db db') (hstatus : booking'.status ∉ from_)
    (hseat : db (.seat i) = some seat) :
    (¬OnSeat db b i ∧ db' (.seat i) = some seat) ∨
      (OnSeat db b i ∧ db' (.booking b) ≠ db (.booking b)) ∧ seat.status ∈ seatFrom ∧
        db' (.seat i) = some (seat.moved target) := by
  obtain ⟨hbooking, hfrom, hsame, seat', hseat', hseatFrom, rfl⟩ := h
  by_cases hi : booking.seatId = i
  · subst hi
    rw [hseat] at hseat'
    cases hseat'
    refine .inr ⟨⟨by rw [OnSeat, hbooking]; rfl, ?_⟩, hseatFrom, ?_⟩
    · -- the booking has left the states it came from
      rw [settle_booking_self, hbooking]
      intro heq
      rw [Option.some.inj heq] at hstatus
      exact hstatus hfrom
    · rw [← hsame, settle_seat_self]
  · refine .inl ⟨?_, ?_⟩
    · rw [OnSeat, hbooking]
      exact fun heq => hi (Option.some.inj heq)
    · rw [settle_seat_ne (by rw [hsame]; exact fun heq => hi heq.symm), hseat]

/-- What a commit of a call does to the row of the seat `i`: nothing if it is no transition of the
seat, and else the transition that the call is for. -/
theorem Call.Commits.seatRow {call : Call} (h : call.Commits db db')
    (hseat : db (.seat i) = some seat) :
    (¬call.Counts i db db' ∧ db' (.seat i) = some seat) ∨
      call.Counts i db db' ∧ seat.status ∈ call.change.sources ∧
        db' (.seat i) = some (seat.moved call.change.target) := by
  cases call with
  | reserveSeat seatId userId =>
    obtain ⟨_, b, holdExpiresAt, now, seat', -, -, hseat', hstatus, rfl⟩ := h
    by_cases hi : seatId = i
    · subst hi
      rw [hseat] at hseat'
      cases hseat'
      exact .inr ⟨rfl, List.mem_singleton.mpr hstatus, settle_seat_self⟩
    · exact .inl ⟨hi, (settle_seat_ne fun heq => hi heq.symm).trans hseat⟩
  | confirmBooking b userId =>
    obtain rfl | ⟨_, booking, now, -, hmoved⟩ := h
    · exact .inl ⟨fun hcounts => hcounts.2 rfl, hseat⟩
    · exact (hmoved.seatRow (by simp) hseat).imp_left fun ⟨hno, hrow⟩ => ⟨fun hc => hno hc.1, hrow⟩
  | cancelBooking b userId =>
    obtain rfl | ⟨_, booking, now, -, hmoved⟩ := h
    · exact .inl ⟨fun hcounts => hcounts.2 rfl, hseat⟩
    · exact (hmoved.seatRow (by simp) hseat).imp_left fun ⟨hno, hrow⟩ => ⟨fun hc => hno hc.1, hrow⟩
  | expireHold b =>
    obtain rfl | ⟨booking, hmoved | ⟨hbooking, -, rfl⟩⟩ := h
    · exact .inl ⟨fun hcounts => hcounts.2.1 rfl, hseat⟩
    · obtain ⟨hno, hrow⟩ | ⟨⟨hon, hne⟩, hfrom, hrow⟩ := hmoved.seatRow (by simp) hseat
      · exact .inl ⟨fun hc => hno hc.1, hrow⟩
      · refine .inr ⟨⟨hon, hne, ?_⟩, hfrom, hrow⟩
        -- the version of a row that has moved is another one
        rw [hrow, hseat]
        intro heq
        exact Nat.succ_ne_self _ (congrArg SeatRow.version (Option.some.inj heq))
    · -- the seat was not held, and its row is left alone
      have hrow (row : Option BookingRow) :
          Function.update db (.booking b) row (.seat i) = db (.seat i) :=
        Function.update_of_ne (by simp) _ _
      exact .inl ⟨fun hc => hc.2.2 (hrow _), (hrow _).trans hseat⟩

end Commit

/-! ### Counting -/

section Counting

variable {P : Type} {calls : P → Call} {i : ℕ} {change : SeatChange}
  {log log' : List (P × Db backend × Db backend)} {seat seat' seat'' : SeatRow}

/-- How many of the commits are transitions of this kind of the seat `i`. -/
def tally (calls : P → Call) (i : ℕ) (change : SeatChange)
    (log : List (P × Db backend × Db backend)) : ℕ :=
  log.countP fun c => (calls c.1).change = change ∧ (calls c.1).Counts i c.2.1 c.2.2

theorem tally_append :
    tally calls i change (log ++ log') = tally calls i change log + tally calls i change log' :=
  List.countP_append

theorem tally_singleton {p : P} {db db' : Db backend} :
    tally calls i change [(p, db, db')] =
      if (calls p).change = change ∧ (calls p).Counts i db db' then 1 else 0 := by
  rw [tally, List.countP_singleton]
  simp only [decide_eq_true_eq]

/-- The transitions of the seat of any kind. -/
def total (calls : P → Call) (i : ℕ) (log : List (P × Db backend × Db backend)) : ℕ :=
  tally calls i .reservation log + tally calls i .confirmation log +
    tally calls i .cancellation log + tally calls i .expiry log

/-- By how much they have changed the number of seats taken. -/
def gain (calls : P → Call) (i : ℕ) (log : List (P × Db backend × Db backend)) : ℤ :=
  tally calls i .reservation log - tally calls i .cancellation log - tally calls i .expiry log

theorem total_append : total calls i (log ++ log') = total calls i log + total calls i log' := by
  simp only [total, tally_append]
  omega

theorem gain_append : gain calls i (log ++ log') = gain calls i log + gain calls i log' := by
  simp only [gain, tally_append]
  omega

/-- With the commits `log` the row of the seat `i` has gone from `seat` to `seat'`, and they
account for it. -/
structure Balanced (calls : P → Call) (i : ℕ) (log : List (P × Db backend × Db backend))
    (seat seat' : SeatRow) : Prop where
  version : seat'.version = seat.version + total calls i log
  taken : seat'.status.taken = seat.status.taken + gain calls i log
  same : total calls i log = 0 → seat' = seat

namespace Balanced

theorem nil : Balanced calls i [] seat seat :=
  ⟨rfl, by simp [gain, tally], fun _ => rfl⟩

theorem append (h : Balanced calls i log seat seat') (h' : Balanced calls i log' seat' seat'') :
    Balanced calls i (log ++ log') seat seat'' := by
  refine ⟨?_, ?_, ?_⟩
  · rw [h'.version, h.version, total_append, Nat.add_assoc]
  · rw [h'.taken, h.taken, gain_append, Int.add_assoc]
  · intro hzero
    rw [total_append, Nat.add_eq_zero_iff] at hzero
    rw [h'.same hzero.2, h.same hzero.1]

/-- One commit accounts for what it does to the row. -/
theorem commit {p : P} {db db' : Db backend} (h : (calls p).Commits db db')
    (hseat : db (.seat i) = some seat) :
    ∃ seat', db' (.seat i) = some seat' ∧ Balanced calls i [(p, db, db')] seat seat' := by
  obtain ⟨hno, hrow⟩ | ⟨hcounts, hfrom, hrow⟩ := h.seatRow hseat
  · refine ⟨seat, hrow, ?_, ?_, fun _ => rfl⟩
    · simp [total, tally_singleton, hno]
    · simp [gain, tally_singleton, hno]
  · -- the commit counts once, for the kind of its call
    have htotal : total calls i [(p, db, db')] = 1 := by
      cases hchange : (calls p).change <;> simp [total, tally_singleton, hcounts, hchange]
    have hgain : gain calls i [(p, db, db')] = (calls p).change.gain := by
      cases hchange : (calls p).change <;>
        simp [gain, tally_singleton, hcounts, hchange, SeatChange.gain]
    refine ⟨_, hrow, ?_, ?_, ?_⟩
    · rw [htotal]
      rfl
    · rw [hgain]
      exact SeatChange.taken_target hfrom
    · rw [htotal]
      intro hzero
      cases hzero

end Balanced

end Counting

/-! ### Runs -/

section Runs

variable {P : Type} [DecidableEq P] {env : Env} {calls : P → Call} {db : Db backend}
  {nextId clock i : ℕ} {s s' : State backend P Result} {seat : SeatRow}
  {log : P → List (Db backend × Db backend)} {Q : P → Result → Past backend → Prop}

/-- What one step commits accounts for what it does to the row. -/
theorem balanced_step (h : Sound (.free backend) (fun p => (calls p).account) Q log s)
    (hseat : s.db (.seat i) = some seat) {e : Event backend P} (hs : s.step e = some s') :
    ∃ seat', s'.db (.seat i) = some seat' ∧ Balanced calls i
      (e.actor.elim [] fun p => (s.commits p e).map fun c => (p, c)) seat seat' := by
  obtain ⟨hdb, hnone⟩ | ⟨p, t, rfl, -, hcommits, hguar, -⟩ := h.commits_step hs
  · refine ⟨seat, by rw [hdb, hseat], ?_⟩
    have hlog : (e.actor.elim [] fun p => (s.commits p e).map fun c => (p, c)) = [] := by
      cases e.actor with
      | none => rfl
      | some p => simp [hnone p]
    rw [hlog]
    exact .nil
  · simp only [Event.actor, Option.elim_some, hcommits, List.map_singleton]
    exact Balanced.commit hguar hseat

/-- What a run commits accounts for what it does to the row. -/
theorem balanced_run (h : Sound (.free backend) (fun p => (calls p).account) Q log s)
    (hseat : s.db (.seat i) = some seat) {es : List (Event backend P)}
    (hrun : s.run es = some s') :
    ∃ seat', s'.db (.seat i) = some seat' ∧
      Balanced calls i (s.commitLog es) seat seat' := by
  induction es generalizing s seat log with
  | nil =>
    cases hrun
    exact ⟨seat, hseat, .nil⟩
  | cons e es ih =>
    obtain ⟨s₁, hs, hrun⟩ := Option.bind_eq_some_iff.mp hrun
    obtain ⟨seat₁, hseat₁, hstep⟩ := balanced_step h hseat hs
    obtain ⟨seat', hseat', hrest⟩ := ih (h.step hs) hseat₁ hrun
    refine ⟨seat', hseat', ?_⟩
    rw [State.commitLog, hs]
    exact hstep.append hrest

/-- A later state with the same version has the same row. -/
theorem seat_eq_of_version (h : Sound (.free backend) (fun p => (calls p).account) Q log s)
    {es es' : List (Event backend P)} {s₁ s₂ : State backend P Result} {seat₁ seat₂ : SeatRow}
    (hle : es <+: es') (hrun : s.run es = some s₁) (hrun' : s.run es' = some s₂)
    (hseat : s₁.db (.seat i) = some seat₁) (hseat' : s₂.db (.seat i) = some seat₂)
    (hversion : seat₁.version = seat₂.version) : seat₁ = seat₂ := by
  obtain ⟨rest, rfl⟩ := hle
  rw [State.run_append, hrun] at hrun'
  obtain ⟨seat', hrow, hbalanced⟩ := balanced_run (h.run hrun) hseat hrun'
  rw [hseat'] at hrow
  cases hrow
  -- the version has not grown, so there was no transition in between
  refine (hbalanced.same ?_).symm
  have := hbalanced.version
  omega

/-- If seats and bookings agree at the start, every committed expiry of a booking of the seat
counts: none leaves the seat held. -/
theorem expiry_counts_of_run {ledger : Ledger} (h : Represents db ledger) {b : ℕ}
    {es : List (Event backend P)} (hrun : (start env calls db nextId clock).run es = some s)
    {c : P × Db backend × Db backend} (hc : c ∈ (start env calls db nextId clock).commitLog es)
    (hcall : calls c.1 = .expireHold b) :
    (calls c.1).Counts i c.2.1 c.2.2 ↔
      OnSeat c.2.1 b i ∧ c.2.2 (.booking b) ≠ c.2.1 (.booking b) := by
  have hsound : Sound discipline (fun p => (calls p).contract)
      (fun p r κ => (calls p).Returns db r κ.seen) (fun _ => [])
      (start env calls db nextId clock) :=
    Sound.initial ⟨ledger, h⟩ fun p => (calls p).safe env ⟨db, clock, []⟩
  obtain ⟨t, hguar⟩ := hsound.guar_of_mem hrun hc
  rw [hcall] at hguar ⊢
  refine ⟨fun hcounts => ⟨hcounts.1, hcounts.2.1⟩, ?_⟩
  rintro ⟨hon, hne⟩
  refine ⟨hon, hne, ?_⟩
  obtain heq | ⟨booking, _, seat, hbooking, -, hseat, -, rfl, heq⟩ := hguar
  · exact absurd (by rw [heq]) hne
  · rw [OnSeat, hbooking] at hon
    cases hon
    -- the seat has moved with the booking
    rw [heq, hseat, settle_seat_self]
    intro hrow
    exact Nat.succ_ne_self _ (congrArg SeatRow.version (Option.some.inj hrow))

/-- In every run from a database in which all seats are available, the version of a seat counts its
committed transitions, those that take it are balanced by those that release it, and two
committed states with one version of the seat have one status of it. With no booking on the seats at
the start, the expiries of the seat are those of its bookings. -/
theorem conservation_of_run
    (hseats : ∀ (j : ℕ) (row : SeatRow), db (.seat j) = some row → row.status = .available)
    (hseat : db (.seat i) = some seat) {es : List (Event backend P)}
    (hrun : (start env calls db nextId clock).run es = some s) :
    let count change := tally calls i change ((start env calls db nextId clock).commitLog es)
    (∃ seat', s.db (.seat i) = some seat' ∧
      seat'.version = seat.version + (count .reservation + count .confirmation +
        count .cancellation + count .expiry) ∧
      (count .reservation : ℤ) - count .cancellation - count .expiry =
        if seat'.status = .available then 0 else 1) ∧
    (∀ (es₁ es₂ : List (Event backend P)) (s₁ s₂ : State backend P Result) (seat₁ seat₂ : SeatRow),
      es₁ <+: es → es₂ <+: es → (start env calls db nextId clock).run es₁ = some s₁ →
      (start env calls db nextId clock).run es₂ = some s₂ → s₁.db (.seat i) = some seat₁ →
      s₂.db (.seat i) = some seat₂ → seat₁.version = seat₂.version →
        seat₁.status = seat₂.status) ∧
    ((∀ (b : ℕ) (row : BookingRow), db (.booking b) = some row → ¬row.status.Active) →
      ∀ c ∈ (start env calls db nextId clock).commitLog es, ∀ b, calls c.1 = .expireHold b →
        ((calls c.1).Counts i c.2.1 c.2.2 ↔
          OnSeat c.2.1 b i ∧ c.2.2 (.booking b) ≠ c.2.1 (.booking b))) := by
  intro count
  have hsound : Sound (.free backend) (fun p => (calls p).account)
      (fun p r κ => (calls p).IsRequest → (calls p).Accounts r κ) (fun _ => [])
      (start env calls db nextId clock) :=
    Sound.initial trivial fun p => (calls p).account_safe env
  refine ⟨?_, ?_, ?_⟩
  · obtain ⟨seat', hseat', hbalanced⟩ := balanced_run hsound hseat hrun
    refine ⟨seat', hseat', hbalanced.version, ?_⟩
    -- the seat took up nothing at the start
    have htaken := hbalanced.taken
    rw [hseats i seat hseat, show SeatStatus.available.taken = 0 from rfl, Int.zero_add] at htaken
    exact htaken.symm
  · intro es₁ es₂ s₁ s₂ seat₁ seat₂ hpre₁ hpre₂ hrun₁ hrun₂ hseat₁ hseat₂ hversion
    -- one of the two states comes after the other
    obtain hle | hle := List.prefix_or_prefix_of_prefix hpre₁ hpre₂
    · rw [seat_eq_of_version hsound hle hrun₁ hrun₂ hseat₁ hseat₂ hversion]
    · rw [seat_eq_of_version hsound hle hrun₂ hrun₁ hseat₂ hseat₁ hversion.symm]
  · intro hnone c hc b hcall
    have hfree : Represents db fun _ => .free := by
      refine ⟨hseats, fun b row hrow hactive => absurd hactive (hnone b row hrow), ?_⟩
      rintro j b ⟨⟩
    exact expiry_counts_of_run hfree hrun hc hcall

end Runs

/-- A reservation and the cancellation of the booking it makes. -/
def reserveAndCancel : Bool → Call
  | true => .reserveSeat 1 7
  | false => .cancelBooking 1 7

/-- The cancellation begins when the reservation has committed. -/
def reservedAndCancelled : List (Event backend Bool) :=
  [.run true, .run true, .run true, .run true, .run true, .run true, .run true, .run false,
    .run false, .run false, .run false, .run false, .run false, .run false, .run false]

theorem conservation_of_run_reservedAndCancelled :
    ∃ s, (start Env.default reserveAndCancel oneSeat 1 0).run reservedAndCancelled = some s ∧
      s.db (.seat 1) = some { status := .available, version := 2 } ∧
      let count change := tally reserveAndCancel 1 change
        ((start Env.default reserveAndCancel oneSeat 1 0).commitLog reservedAndCancelled)
      (∃ seat : SeatRow, s.db (.seat 1) = some seat ∧
        seat.version = 0 + (count .reservation + count .confirmation +
          count .cancellation + count .expiry) ∧
        (count .reservation : ℤ) - count .cancellation - count .expiry =
          if seat.status = .available then 0 else 1) := by
  have hrun : (start Env.default reserveAndCancel oneSeat 1 0).run reservedAndCancelled =
    some _ := rfl
  have hseat : oneSeat (.seat 1) = some _ := rfl
  exact ⟨_, hrun, rfl, (conservation_of_run untouched_oneSeat.seats hseat hrun).1⟩

end ScalableBooking.Booking
