import ScalableBooking.Booking.Linearizable

/-!
# The deadline of a hold

`holdExpiresAt` is stored in the booking and given to the expiry job, and nothing else looks at
it. What decides between a confirmation and an expiry is the status of the booking when the
transaction of the confirmation updates it. So a hold whose expiry is late, or was never
scheduled, can be confirmed after its end (`late_confirmation`). In every run a confirmation
succeeds exactly on a pending booking, and once an expiry has committed none does any more
(`arbitrated_of_run`).
-/

namespace ScalableBooking.Booking

open ReadCommitted

/-- In the run from `s₀` to `s` with the events `es`, confirmations are decided by the status of
the booking. -/
structure Arbitrated {P : Type} [DecidableEq P] (calls : P → Call) (s₀ : State backend P Result)
    (es : List (Event backend P)) (s : State backend P Result) : Prop where
  /-- A confirmation that resolves has taken the booking from `pending` to `confirmed`. -/
  resolved : ∀ p b userId r, calls p = .confirmBooking b userId →
    s.procs p = .outside (.ret r) → ∃ (db db' : Db backend) (row row' : BookingRow),
      s₀.history p es = [(db, db')] ∧ db (.booking b) = some row ∧ row.status = .pending ∧
        db' (.booking b) = some row' ∧ row'.status = .confirmed
  /-- One that finds its booking not confirmable names a booking that has left `pending`. -/
  refused : ∀ p b userId c status, calls p = .confirmBooking b userId →
    s.procs p = .outside (.fail (.bookingNotConfirmable c status)) →
      c = b ∧ ∃ row : BookingRow, s.db (.booking b) = some row ∧ row.status ≠ .pending
  /-- Once the booking is expired, no confirmation of it has resolved, and one that has ended has
  found the booking expired, or a broken connection, or no booking of its user: then the booking is
  another user's, or it did not exist yet when the call looked for it. -/
  expired : ∀ p b userId row, calls p = .confirmBooking b userId →
    s.db (.booking b) = some row → row.status = .expired →
      (∀ r, s.procs p ≠ .outside (.ret r)) ∧
        ∀ e, s.procs p = .outside (.fail e) → e = .infrastructure ∨
          e = .bookingNotConfirmable b "expired" ∨
          e = .bookingNotFound b ∧ (row.userId ≠ userId ∨ ∃ es₁ ev es₂ s₁,
            es = es₁ ++ ev :: es₂ ∧ ev.actor = some p ∧ s₀.run es₁ = some s₁ ∧
              s₁.db (.booking b) = none)

section Runs

variable {P : Type} [DecidableEq P] {env : Env} {calls : P → Call} {db : Db backend}
  {nextId clock : ℕ} {s : State backend P Result}

/-- A booking that is not pending and becomes expired is expired already. -/
theorem BookingRow.Becomes.expired_of_ne_pending {row row' : BookingRow} (h : row.Becomes row')
    (hpending : row.status ≠ .pending) (hexpired : row'.status = .expired) :
    row.status = .expired := by
  have hstatus := h.status
  rw [hexpired] at hstatus
  cases hrow : row.status with
  | pending => exact absurd hrow hpending
  | expired => rfl
  -- the two other states do not lead here
  | confirmed => simp [hrow, BookingStatus.CanBecome] at hstatus
  | cancelled => simp [hrow, BookingStatus.CanBecome] at hstatus

/-- A confirmation that has not found its booking has looked for another user's, or came too
early. -/
theorem notFound_of_run (h : Untouched db) {es : List (Event backend P)}
    (hrun : (start env calls db nextId clock).run es = some s) {p : P} {b userId : ℕ}
    {row : BookingRow} (hcall : calls p = .confirmBooking b userId)
    (hp : s.procs p = .outside (.fail (.bookingNotFound b))) (hrow : s.db (.booking b) = some row) :
    row.userId ≠ userId ∨ ∃ es₁ ev es₂ s₁, es = es₁ ++ ev :: es₂ ∧ ev.actor = some p ∧
      (start env calls db nextId clock).run es₁ = some s₁ ∧ s₁.db (.booking b) = none := by
  obtain ⟨es₁, ev, es₂, s₁, hes, hev, hrun₁, hrejects, hlater⟩ :=
    exists_rejects_of_run h hrun hp (by simp)
  simp only [hcall, Call.Rejects, reduceCtorEq, and_false, exists_false, or_false, and_true]
    at hrejects
  by_cases huser : row.userId = userId
  · refine .inr ⟨es₁, ev, es₂, s₁, hes, hev, hrun₁, ?_⟩
    -- had it been there, it would have had the same user
    cases hrow₁ : s₁.db (.booking b) with
    | none => rfl
    | some row₁ =>
      obtain ⟨row₂, hrow₂, hbecomes⟩ := Later.exists_row hlater hrow₁
      rw [hrow] at hrow₂
      cases hrow₂
      exact absurd ⟨row₁, hrow₁, hbecomes.userId.symm.trans huser⟩ hrejects
  · exact .inl huser

/-- In every run from an untouched database, with expiries at any time or never, confirmations
are decided by the status of the booking. -/
theorem arbitrated_of_run (h : Untouched db) {es : List (Event backend P)}
    (hrun : (start env calls db nextId clock).run es = some s) :
    Arbitrated calls (start env calls db nextId clock) es s := by
  have hsound := (start_sound h).run hrun
  refine ⟨?_, ?_, ?_⟩
  · intro p b userId r hcall hp
    -- the account of the call has its one commit
    obtain ⟨κ, -, hcommits, -, hret⟩ := (start_accounts.run hrun).returned hp
    have hrequest : (calls p).IsRequest := by
      rw [hcall]
      trivial
    obtain ⟨d, d', hd, htransition⟩ := hret hrequest
    rw [hcall] at htransition
    obtain ⟨booking, now, -, hbooking, hstatus, -, seat, -, -, rfl⟩ := htransition
    exact ⟨d, _, booking, _, hcommits.symm.trans hd, hbooking, List.mem_singleton.mp hstatus,
      settle_booking_self, rfl⟩
  · intro p b userId c status hcall hp
    obtain ⟨κ, hlater, -, -, herr⟩ := hsound.failed hp
    simp only [Call.contract, hcall, Call.Throws, reduceCtorEq, false_or,
      BookingError.bookingNotConfirmable.injEq] at herr
    obtain ⟨row, hrow, hpending, rfl, -⟩ := herr
    -- it has left `pending` for good
    obtain ⟨row', hrow', hbecomes⟩ := Later.exists_row hlater hrow
    refine ⟨rfl, row', hrow', ?_⟩
    intro hpending'
    exact hpending (hbecomes.pending hpending')
  · intro p b userId row hcall hrow hexpired
    refine ⟨?_, ?_⟩
    · intro r hp
      obtain ⟨κ, hlater, -, -, hret⟩ := hsound.returned hp
      rw [hcall] at hret
      obtain ⟨row₁, row₂, -, hconfirmed, hrow₂, hbecomes⟩ := hret
      obtain ⟨row₃, hrow₃, hbecomes'⟩ := Later.exists_row hlater hrow₂
      rw [hrow] at hrow₃
      cases hrow₃
      -- a confirmed booking does not expire
      have hstatus := (hbecomes.trans hbecomes').status
      simp [hconfirmed, hexpired, BookingStatus.CanBecome] at hstatus
    · intro e hp
      obtain ⟨κ, hlater, -, -, herr⟩ := hsound.failed hp
      simp only [Call.contract, hcall, Call.Throws] at herr
      obtain rfl | rfl | ⟨row₁, hrow₁, hpending, rfl⟩ := herr
      · exact .inl rfl
      · exact .inr (.inr ⟨rfl, notFound_of_run h hrun hcall hp hrow⟩)
      · -- the state named in the error is the one the booking was in for good
        obtain ⟨row₂, hrow₂, hbecomes⟩ := Later.exists_row hlater hrow₁
        rw [hrow] at hrow₂
        cases hrow₂
        rw [hbecomes.expired_of_ne_pending hpending hexpired]
        exact .inr (.inl rfl)

end Runs

/-- The expiry job could not be scheduled, and the confirmation comes a millisecond after the
end of the hold. -/
def lateConfirm : List (Event backend Bool) :=
  [.run true, .run true, .run true, .run true, .run true, .run true, .run true, .run true,
    .reply true .rejected, .tick 300001, .run false, .run false, .run false, .run false,
    .run false, .run false, .run false, .run false, .run false, .reply false .resolved]

/-- The confirmation succeeds, by a transaction that runs after the end of the hold. -/
theorem late_confirmation :
    ∃ s row, (start Env.default reserveAndConfirm oneSeat 1 0).run lateConfirm = some s ∧
      s.procs false = .outside (.ret (.confirmed 1 row)) ∧
      s.db (.booking 1) = some row ∧ row.status = .confirmed ∧
      row.holdExpiresAt = some 300000 ∧ row.updatedAt = 300001 := by
  have hrun : (start Env.default reserveAndConfirm oneSeat 1 0).run lateConfirm = some _ := rfl
  exact ⟨_, _, hrun, rfl, rfl, rfl, rfl, rfl⟩

theorem arbitrated_of_run_lateConfirm :
    ∃ s, (start Env.default reserveAndConfirm oneSeat 1 0).run lateConfirm = some s ∧
      Arbitrated reserveAndConfirm (start Env.default reserveAndConfirm oneSeat 1 0) lateConfirm
        s := by
  have hrun : (start Env.default reserveAndConfirm oneSeat 1 0).run lateConfirm = some _ := rfl
  exact ⟨_, hrun, arbitrated_of_run untouched_oneSeat hrun⟩

end ScalableBooking.Booking
