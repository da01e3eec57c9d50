import ScalableBooking.Booking.Contracts

/-!
# The state drift branches are unreachable

The confirmation, the cancellation and the expiry of a booking rewrite the booking first and
then look for its seat in the state that goes with it. Should the seat not be found, the first
two throw a `state drift` error and the third would expire the booking and leave the seat held.
In no run from an untouched database does that happen (`noDrift_of_run`): at the `UPDATE` of the
seat, whatever has been committed since the `UPDATE` of the booking, the row is there.
-/

namespace ScalableBooking.Booking

open ReadCommitted

/-- No booking and its seat are found out of step in the state `s`. -/
structure NoDrift {P : Type} [DecidableEq P] (calls : P → Call) (s : State backend P Result) :
    Prop where
  /-- The `UPDATE` of a seat, which follows the one of a booking that matched, finds its row. -/
  matched : ∀ (p : P) (β : Type) (t : ℕ) (scanned : Bool) (i : ℕ) (cond : SeatRow → Bool)
    (set : SeatRow → SeatRow) (cont : Option SeatRow → Tx backend β)
    (next : β → Prog backend Result),
    (calls p).bookingId?.isSome →
      s.procs p = .inside t scanned (.update (.seat i) cond set cont) next →
        ∃ seat : SeatRow, s.view p (.seat i) = some seat ∧ cond seat = true
  /-- Neither error is on its way out of a transaction, or out of a call. -/
  thrown : ∀ (p : P) (e : BookingError), e.IsDrift →
    s.procs p ≠ .outside (.fail e) ∧
      ∀ (β : Type) (t : ℕ) (scanned : Bool) (next : β → Prog backend Result),
        s.procs p ≠ .inside t scanned (.fail e) next
  /-- No hold is expired without its seat. -/
  expired : ∀ (p : P) (booking : BookingRow),
    s.procs p ≠ .outside (.ret (.expired (some (booking, none))))

section Runs

variable {P : Type} [DecidableEq P] {env : Env} {calls : P → Call} {db : Db backend}
  {nextId clock : ℕ} {s : State backend P Result}

/-- In every state that a run from an untouched database reaches, the row of the seat is found,
neither `state drift` error is thrown and no hold is expired without its seat. -/
theorem noDrift_of_run (h : Untouched db) {es : List (Event backend P)}
    (hrun : (start env calls db nextId clock).run es = some s) : NoDrift calls s := by
  have hsound := (start_sound h).run hrun
  refine ⟨?_, ?_, ?_⟩
  · intro p β t scanned i cond set cont next hcall hp
    refine hsound.finds hp ?_
    -- a call about a booking may miss no seat
    rintro (hnone | hne)
    · simp [hnone] at hcall
    · exact hne i rfl
  · intro p e he
    refine ⟨?_, ?_⟩
    · intro hp
      obtain ⟨κ, -, -, -, herr⟩ := hsound.failed hp
      exact herr.not_isDrift he
    · intro β t scanned next hp
      obtain ⟨κ, -, -, herr⟩ := hsound.failing hp
      exact herr.not_isDrift he
  · intro p booking hp
    obtain ⟨κ, -, -, -, hret⟩ := hsound.returned hp
    exact hret.inStep booking rfl

end Runs

/-- A reservation, a confirmation and an expiry of its booking. -/
def confirmAndExpire : Fin 3 → Call
  | 0 => .reserveSeat 1 7
  | 1 => .confirmBooking 1 7
  | 2 => .expireHold 1

/-- The confirmation has rewritten the booking, and the expiry waits for it. -/
def confirmedFirst : List (Event backend (Fin 3)) :=
  [.run 0, .run 0, .run 0, .run 0, .run 0, .run 0, .run 0, .run 1, .run 1, .run 2, .run 2,
    .run 1, .run 1, .run 1]

theorem noDrift_of_run_confirmedFirst :
    ∃ s, (start Env.default confirmAndExpire oneSeat 1 0).run confirmedFirst = some s ∧
      s.Locked 2 (.booking 1) ∧ NoDrift confirmAndExpire s := by
  have hrun : (start Env.default confirmAndExpire oneSeat 1 0).run confirmedFirst = some _ := rfl
  exact ⟨_, hrun, ⟨_, rfl, by decide⟩, noDrift_of_run untouched_oneSeat hrun⟩

end ScalableBooking.Booking
