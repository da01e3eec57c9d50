import ScalableBooking.Booking.Ledger
import ScalableBooking.Lib.LockOrder

/-!
# No deadlock between booking transactions

`reserveSeat` locks the seat and then creates the booking, and the three others lock the booking
and then its seat, which looks like two orders. But nobody can wait for a booking that has just
been inserted. Of the rows that can be waited for, `reserveSeat` locks the seat only, and all
transactions lock a booking before a seat (`Call.ascending`).
-/

namespace ScalableBooking.Booking

open ReadCommitted

/-- The order in which the transactions lock rows. -/
def RowId.level : RowId → ℕ
  | user _ => 0
  | booking _ => 1
  | seat _ => 2

theorem RowId.level_le (k : RowId) : k.level ≤ 2 := by
  cases k <;> simp [level]

theorem reserveSeatTx_ascending (seatId userId holdExpiresAt : ℕ) :
    (reserveSeatTx seatId userId holdExpiresAt).Ascending RowId.level 0 := by
  refine ⟨Nat.zero_le _, ?_, trivial⟩
  intro seat n row
  trivial

theorem confirmBookingTx_ascending (b : ℕ) :
    (confirmBookingTx b).Ascending RowId.level 0 := by
  intro now
  refine ⟨Nat.zero_le _, ?_, trivial⟩
  intro booking
  exact ⟨Nat.le_refl 2, fun _ => trivial, trivial⟩

theorem cancelBookingTx_ascending (b : ℕ) :
    (cancelBookingTx b).Ascending RowId.level 0 := by
  intro now
  refine ⟨Nat.zero_le _, ?_, trivial⟩
  intro booking
  exact ⟨Nat.le_refl 2, fun _ => trivial, trivial⟩

theorem expireHoldTx_ascending (b : ℕ) : (expireHoldTx b).Ascending RowId.level 0 := by
  refine ⟨Nat.zero_le _, ?_, trivial⟩
  intro booking
  exact ⟨Nat.le_refl 2, fun _ => trivial, trivial⟩

/-- What is sent after a transaction locks nothing. -/
theorem publishBookingEvent_ascending (type : EventType) (payload : Payload) (r : Result) :
    ((publishBookingEvent type payload).bind fun _ => .ret r).Ascending RowId.level :=
  fun _ _ => trivial

/-- Every call locks its rows in order. -/
theorem Call.ascending (env : Env) (call : Call) : (call.code env).Ascending RowId.level := by
  cases call with
  | reserveSeat seatId userId =>
    intro row
    cases row with
    | none => trivial
    | some existing =>
      intro now
      refine ⟨reserveSeatTx_ascending seatId userId _, ?_⟩
      intro result now' r
      exact publishBookingEvent_ascending _ _ _
  | confirmBooking b userId =>
    intro row
    cases row with
    | none => trivial
    | some existing =>
      refine ⟨confirmBookingTx_ascending b, ?_⟩
      intro confirmed
      cases confirmed with
      | none => exact fun _ => trivial
      | some booking => exact publishBookingEvent_ascending _ _ _
  | cancelBooking b userId =>
    intro row
    cases row with
    | none => trivial
    | some existing =>
      refine ⟨cancelBookingTx_ascending b, ?_⟩
      intro cancelled
      cases cancelled with
      | none => exact fun _ => trivial
      -- the hold job is removed before the event is published, whatever the queue replies
      | some booking =>
        intro r
        cases r with
        | resolved => exact fun _ => publishBookingEvent_ascending _ _ _
        | absent => exact publishBookingEvent_ascending _ _ _
        | rejected => exact publishBookingEvent_ascending _ _ _
  | expireHold b => exact ⟨expireHoldTx_ascending b, fun _ => trivial⟩

section Runs

variable {P : Type} [DecidableEq P] {env : Env} {calls : P → Call} {db : Db backend}
  {nextId clock : ℕ} {s : State backend P Result}

/-- In every state that a run of any calls reaches, on any database, the wait-for graph has no
cycle, and if a transaction is under way one of those under way can make its next step. -/
theorem noDeadlock_of_run {es : List (Event backend P)}
    (hrun : (start env calls db nextId clock).run es = some s) :
    (∀ p, ¬Relation.TransGen s.Waits p p) ∧
      ((∃ p, s.Inside p) → ∃ q, s.Inside q ∧ (s.step (.run q)).isSome) := by
  have h : LockOrdered RowId.level s := .of_run (fun p => (calls p).ascending env) hrun
  refine ⟨h.not_cyclic, ?_⟩
  rintro ⟨p, hp⟩
  exact h.exists_step RowId.level_le hp

end Runs

/-- Two reservations of one seat. -/
def twoReservations : Bool → Call := fun _ => .reserveSeat 1 7

/-- One has locked the seat, and the other has found it available. -/
def oneWaits : List (Event backend Bool) :=
  [.run true, .run true, .run true, .run true, .run true, .run false, .run false, .run false,
    .run false]

theorem noDeadlock_of_run_oneWaits :
    ∃ s, (start Env.default twoReservations oneSeat 1 0).run oneWaits = some s ∧
      s.Waits false true ∧ (∀ p, ¬Relation.TransGen s.Waits p p) ∧
      ∃ q, s.Inside q ∧ (s.step (.run q)).isSome := by
  have hrun : (start Env.default twoReservations oneSeat 1 0).run oneWaits = some _ := rfl
  obtain ⟨hcycle, hstep⟩ := noDeadlock_of_run hrun
  refine ⟨_, hrun, ⟨.seat 1, ⟨_, _, _, _, _, _, rfl⟩, _, rfl, by decide⟩, hcycle, ?_⟩
  exact hstep ⟨true, _, _, _, _, _, rfl⟩

end ScalableBooking.Booking
