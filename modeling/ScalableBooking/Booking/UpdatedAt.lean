import ScalableBooking.Booking.Agreement
import ScalableBooking.Booking.Lifecycle

/-!
# The time of the last change

`updatedAt` is written by the statements that change a booking, and no trigger helps them. The
insertion takes the start of its transaction, and the confirmation and the cancellation take the
clock. The expiry does not write it: its row keeps the time it had while it was pending.

So of a transaction that changes the status of a booking only an expiry can leave a time behind that
is earlier than its own start, and it does so exactly if it began after the time in the row
(`StaleExpiry`). In the runs without such an expiry, and in no others, `updatedAt` records the last
change (`recordsChanges_iff`).
-/

namespace ScalableBooking.Booking

open ReadCommitted

/-! ### One commit -/

/-- What a commit of the call can do to the row of the booking `b`, if its transaction began at
`start`. -/
inductive Call.Stamps (call : Call) (start b : ℕ) :
    Option BookingRow → Option BookingRow → Prop where
  | same (row : Option BookingRow) : Stamps call start b row row
  | stamped (old : Option BookingRow) (row : BookingRow)
      (hstatus : some row.status ≠ old.map BookingRow.status) (hstart : start ≤ row.updatedAt)
      (hcall : call.IsRequest) : Stamps call start b old (some row)
  | expired (row : BookingRow) (hpending : row.status = .pending) (hcall : call = .expireHold b) :
      Stamps call start b (some row) (some { row with status := .expired })

/-- The row changes with its status only. -/
theorem Call.Stamps.eq_of_status {call : Call} {start b : ℕ} {old new : Option BookingRow}
    (h : call.Stamps start b old new)
    (hstatus : new.map BookingRow.status = old.map BookingRow.status) : new = old := by
  cases h with
  | same => rfl
  | stamped _ row hne => exact absurd hstatus hne
  | expired row hpending => simp [hpending] at hstatus

/-- The contract of a call that says when it writes `updatedAt`. -/
def Call.stamping (call : Call) : Contract backend :=
  { Contract.free backend with
    guar := fun start db db' => ∀ b, call.Stamps start b (db (.booking b)) (db' (.booking b)) }

section Calls

variable {call : Call} {start b : ℕ} {db : Db backend} {κ : Past backend}

/-- A transaction that settles a booking leaves the others alone. -/
theorem stamps_settle {booking' : BookingRow} {seat : SeatRow}
    (h : call.Stamps start b (db (.booking b)) (some booking')) (c : ℕ) :
    call.Stamps start c (db (.booking c)) (settle db b booking' seat (.booking c)) := by
  by_cases hc : c = b
  · subst hc
    rw [settle_booking_self]
    exact h
  · rw [settle_booking_ne hc]
    exact .same _

theorem reserveSeat_stamps (env : Env) (seatId userId : ℕ) :
    (reserveSeat env seatId userId).Safe (.free backend) (Call.reserveSeat seatId userId).stamping
      (fun _ _ => True) κ := by
  simp only [reserveSeat, findSeatById, Prog.bind_eq, Prog.bind, Prog.Safe]
  refine ⟨fun _ _ => trivial, ?_⟩
  intro db₀ _ _
  cases (db₀ (.seat seatId)).filter fun _ => true with
  | none => trivial
  | some existing =>
    intro now _
    refine ⟨fun _ _ => trivial, ?_⟩
    intro start _
    refine reserveSeatTx_safe trivial (fun _ _ _ => trivial) ?_
    intro db seat b _ hseat hstatus hnew
    refine ⟨trivial, trivial, stamps_settle ?_, ?_⟩
    · -- the default of the column is the start of the transaction
      rw [hnew]
      exact .stamped _ _ (by simp) (Nat.le_refl start) trivial
    · exact fun _ _ _ _ _ => ⟨trivial, fun _ _ _ _ _ _ => ⟨trivial, fun _ => trivial⟩⟩

theorem confirmBooking_stamps (b userId : ℕ) :
    (confirmBooking b userId).Safe (.free backend) (Call.confirmBooking b userId).stamping
      (fun _ _ => True) κ := by
  simp only [confirmBooking, findOwnBooking, Prog.bind_eq, Prog.bind, Prog.Safe]
  refine ⟨fun _ _ => trivial, ?_⟩
  intro db₀ _ _
  cases (db₀ (.booking b)).filter fun row => decide (row.userId = userId) with
  | none => trivial
  | some existing =>
    refine ⟨fun _ _ => trivial, ?_⟩
    intro start _ now hnow
    refine settleTx_safe (v := fun booking _ => booking) (fun _ => rfl) rfl (fun _ => rfl)
      (fun _ _ => rfl) trivial ?_ ?_ ?_
    · intro _ _ _ _ _ _
      exact ⟨fun _ => .same _, fun _ _ => trivial, fun _ _ _ => trivial⟩
    · intro _ _ _ _ _ _ _ _
      exact ⟨trivial, trivial⟩
    · intro db booking seat _ hbooking hstatus _ _
      refine ⟨trivial, trivial, stamps_settle ?_, ?_⟩
      · -- the clock has been read inside the transaction
        rw [hbooking]
        exact .stamped _ _ (by simp [List.mem_singleton.mp hstatus]) hnow trivial
      · exact fun _ _ _ _ _ => ⟨trivial, fun _ => trivial⟩

theorem cancelBooking_stamps (b userId : ℕ) :
    (cancelBooking b userId).Safe (.free backend) (Call.cancelBooking b userId).stamping
      (fun _ _ => True) κ := by
  simp only [cancelBooking, findOwnBooking, Prog.bind_eq, Prog.bind, Prog.Safe]
  refine ⟨fun _ _ => trivial, ?_⟩
  intro db₀ _ _
  cases (db₀ (.booking b)).filter fun row => decide (row.userId = userId) with
  | none => trivial
  | some existing =>
    refine ⟨fun _ _ => trivial, ?_⟩
    intro start _ now hnow
    refine settleTx_safe (v := fun booking _ => booking) (fun _ => rfl) rfl (fun _ => rfl)
      (fun _ _ => rfl) trivial ?_ ?_ ?_
    · intro _ _ _ _ _ _
      exact ⟨fun _ => .same _, fun _ _ => trivial, fun _ _ _ => trivial⟩
    · intro _ _ _ _ _ _ _ _
      exact ⟨trivial, trivial⟩
    · intro db booking seat _ hbooking hstatus _ _
      refine ⟨trivial, trivial, stamps_settle ?_, ?_⟩
      · rw [hbooking]
        refine .stamped _ _ ?_ hnow trivial
        rintro heq
        rw [← Option.some.inj heq] at hstatus
        simp at hstatus
      · intro _ _ _
        refine ⟨trivial, ?_⟩
        -- the job may be there or not
        intro r
        cases r with
        | resolved =>
          exact fun _ _ _ => ⟨trivial, fun _ _ _ _ _ _ => ⟨trivial, fun _ => trivial⟩⟩
        | absent => exact fun _ _ _ _ _ => ⟨trivial, fun _ => trivial⟩
        | rejected => exact fun _ _ _ _ _ => ⟨trivial, fun _ => trivial⟩

/-- An expiry keeps the time of the pending row. -/
theorem expireHold_stamps (b : ℕ) :
    (expireHold b).Safe (.free backend) (Call.expireHold b).stamping (fun _ _ => True) κ := by
  refine ⟨fun _ _ => trivial, ?_⟩
  intro start _
  refine settleTx_safe (v := fun booking seat => (booking, some seat)) (fun _ => rfl) rfl
    (fun _ => rfl) (fun _ _ => rfl) trivial ?_ ?_ ?_
  · intro _ _ _ _ _ _
    exact ⟨fun _ => .same _, trivial⟩
  · intro _ db₁ booking _ hbooking _ hstatus _
    refine ⟨trivial, ?_⟩
    intro db _ _ hw
    refine ⟨trivial, trivial, ?_, trivial⟩
    -- the booking alone, without its seat
    intro c
    rw [Writes.overlay_write, Writes.overlay_empty]
    by_cases hc : c = b
    · subst hc
      rw [Function.update_self, hw.of_write, hbooking]
      exact .expired booking (List.mem_singleton.mp hstatus) rfl
    · rw [Function.update_of_ne (by simpa using hc)]
      exact .same _
  · intro db booking seat _ hbooking hstatus _ _
    refine ⟨trivial, trivial, stamps_settle ?_, trivial⟩
    rw [hbooking]
    exact .expired booking (List.mem_singleton.mp hstatus) rfl

/-- Every call stamps the rows it changes so, on any database. -/
theorem Call.stamps (env : Env) (call : Call) :
    (call.code env).Safe (.free backend) call.stamping (fun _ _ => True) κ := by
  cases call with
  | reserveSeat seatId userId => exact reserveSeat_stamps env seatId userId
  | confirmBooking b userId => exact confirmBooking_stamps b userId
  | cancelBooking b userId => exact cancelBooking_stamps b userId
  | expireHold b => exact expireHold_stamps b

end Calls

/-! ### Runs -/

section Runs

variable {P : Type} [DecidableEq P] {env : Env} {calls : P → Call} {db : Db backend}
  {nextId clock b t : ℕ} {s s₁ s₂ : State backend P Result} {e : Event backend P}
  {es : List (Event backend P)} {log : P → List (Db backend × Db backend)}
  {Q : P → Result → Past backend → Prop}

/-- The start of the transaction by which the event changes the status of the booking `b`. -/
def changing (b : ℕ) (s : State backend P Result) (e : Event backend P) : Option ℕ :=
  (s.step e).bind fun s' => if statusOf s'.db b = statusOf s.db b then none else s.committing e

/-- The start of the last transaction of the run that has changed the status of the booking `b`. -/
def lastChange (b : ℕ) (s : State backend P Result) : List (Event backend P) → Option ℕ
  | [] => none
  | e :: es => (s.step e).bind fun s' => (lastChange b s' es).or (changing b s e)

/-- The booking `b` was last updated at the time `t` or later. -/
def UpdatedSince (db : Db backend) (b t : ℕ) : Prop :=
  ∃ row : BookingRow, db (.booking b) = some row ∧ t ≤ row.updatedAt

/-- Along the run from `s`, `updatedAt` records the last change of the status of every booking. -/
structure RecordsChanges (s : State backend P Result) (es : List (Event backend P)) : Prop where
  /-- A commit that changes the status leaves a time there that is not before the start of its
  transaction. -/
  change : ∀ es₁ e s₁ s₂ b t, es₁ ++ [e] <+: es → s.run es₁ = some s₁ → s₁.step e = some s₂ →
    changing b s₁ e = some t → UpdatedSince s₂.db b t
  /-- In every state it is not before the start of the transaction that made the last change. -/
  last : ∀ es₁ s₁ b t, es₁ <+: es → s.run es₁ = some s₁ → lastChange b s es₁ = some t →
    UpdatedSince s₁.db b t

/-- The process `p` is about to commit the expiry of a booking, in a transaction that began after
the time in the row. -/
def StaleExpiry (calls : P → Call) (s : State backend P Result) (p : P) : Prop :=
  ∃ (b t : ℕ) (row : BookingRow), calls p = .expireHold b ∧ s.committing (.run p) = some t ∧
    s.db (.booking b) = some row ∧ s.view p (.booking b) ≠ some row ∧ row.updatedAt < t

/-- No process of the run from `s` commits such an expiry. -/
def NoStaleExpiry (calls : P → Call) (s : State backend P Result) (es : List (Event backend P)) :
    Prop :=
  ∀ es₁ p s₁, es₁ ++ [.run p] <+: es → s.run es₁ = some s₁ → ¬StaleExpiry calls s₁ p

/-- The last change of a run that is one event longer. -/
theorem lastChange_concat (hrun : s.run es = some s₁) (hs : s₁.step e = some s₂) :
    lastChange b s (es ++ [e]) = (changing b s₁ e).or (lastChange b s es) := by
  induction es generalizing s with
  | nil =>
    cases hrun
    simp [lastChange, hs]
  | cons e' es ih =>
    obtain ⟨s', hs', hrun⟩ := Option.bind_eq_some_iff.mp hrun
    rw [List.cons_append, lastChange, lastChange, hs', Option.bind_some, Option.bind_some, ih hrun,
      Option.or_assoc]

theorem changing_eq_some (hs : s₁.step e = some s₂) :
    changing b s₁ e = some t ↔
      statusOf s₂.db b ≠ statusOf s₁.db b ∧ s₁.committing e = some t := by
  rw [changing, hs, Option.bind_some]
  split
  · rename_i heq
    simp [heq]
  · rename_i hne
    simp [hne]

/-- A commit that changes the status is stamped, or it is an expiry. -/
theorem stamps_of_changing (h : Sound (.free backend) (fun p => (calls p).stamping) Q log s₁)
    (hs : s₁.step e = some s₂) (hchange : changing b s₁ e = some t) :
    ∃ p, e = .run p ∧ s₁.committing e = some t ∧ s₂.db = s₁.view p ∧
      (calls p).Stamps t b (s₁.db (.booking b)) (s₂.db (.booking b)) := by
  obtain ⟨-, ht⟩ := (changing_eq_some hs).mp hchange
  obtain ⟨-, hnone⟩ | ⟨p, t', rfl, hdb, ht', hguar⟩ := h.committing_step hs
  · rw [hnone] at ht
    cases ht
  · rw [ht] at ht'
    cases ht'
    exact ⟨p, rfl, ht, hdb, hguar b⟩

/-- A step that does not change the status leaves the row as it is. -/
theorem row_of_not_changing (h : Sound (.free backend) (fun p => (calls p).stamping) Q log s₁)
    (hs : s₁.step e = some s₂) (hchange : changing b s₁ e = none) :
    s₂.db (.booking b) = s₁.db (.booking b) := by
  obtain ⟨hdb, -⟩ | ⟨p, t, rfl, -, ht, hguar⟩ := h.committing_step hs
  · rw [hdb]
  · refine (hguar b).eq_of_status ?_
    by_contra hne
    have := (changing_eq_some hs).mpr ⟨hne, ht⟩
    rw [hchange] at this
    cases this

/-- A change of the status is recorded, unless it is a stale expiry. -/
theorem updatedSince_of_changing
    (h : Sound (.free backend) (fun p => (calls p).stamping) Q log s₁) (hs : s₁.step e = some s₂)
    (hfresh : ∀ p, e = .run p → ¬StaleExpiry calls s₁ p) (hchange : changing b s₁ e = some t) :
    UpdatedSince s₂.db b t := by
  have hstatus := ((changing_eq_some hs).mp hchange).1
  obtain ⟨p, rfl, ht, hdb, hstamps⟩ := stamps_of_changing h hs hchange
  rw [statusOf, statusOf] at hstatus
  generalize hold : s₁.db (.booking b) = old, hnew : s₂.db (.booking b) = new at hstamps hstatus
  cases hstamps with
  | same => exact absurd rfl hstatus
  | stamped _ row _ hstart => exact ⟨row, hnew, hstart⟩
  | expired row hpending hcall =>
    refine ⟨_, hnew, ?_⟩
    -- were the time too early, the expiry would be stale
    by_contra hlate
    refine hfresh p rfl ⟨b, t, row, hcall, ht, hold, ?_, Nat.lt_of_not_le hlate⟩
    rw [← hdb, hnew]
    intro heq
    rw [← Option.some.inj heq] at hpending
    cases hpending

/-- A stale expiry changes the status, and leaves a time that is too early. -/
theorem StaleExpiry.not_recorded
    (h : Sound (.free backend) (fun p => (calls p).stamping) Q log s₁) {p : P}
    (hstale : StaleExpiry calls s₁ p) :
    ∃ s₂ b t, s₁.step (.run p) = some s₂ ∧ changing b s₁ (.run p) = some t ∧
      ¬UpdatedSince s₂.db b t := by
  obtain ⟨b, t, row, hcall, ht, hrow, hview, hlt⟩ := hstale
  obtain ⟨s₂, hs⟩ := State.exists_step_of_committing ht
  obtain ⟨-, hnone⟩ | ⟨q, t', he, hdb, ht', hguar⟩ := h.committing_step hs
  · rw [hnone] at ht
    cases ht
  · cases he
    rw [ht] at ht'
    cases ht'
    have hstamps := hguar b
    rw [hrow] at hstamps
    rw [← hdb] at hview
    generalize hnew : s₂.db (.booking b) = new at hstamps hview
    cases hstamps with
    | same => exact absurd rfl hview
    -- an expiry is no request, so its time is not written
    | stamped _ row' _ _ hrequest =>
      rw [hcall] at hrequest
      exact hrequest.elim
    | expired _ hpending =>
      refine ⟨s₂, b, t, hs, (changing_eq_some hs).mpr ⟨?_, ht⟩, ?_⟩
      · simp [statusOf, hnew, hrow, hpending]
      · rintro ⟨row', hrow', hle⟩
        rw [hnew] at hrow'
        cases hrow'
        exact absurd hle (Nat.not_le_of_lt hlt)

/-- Without stale expiries the last change is recorded in every state. -/
theorem updatedSince_of_lastChange
    (h : Sound (.free backend) (fun p => (calls p).stamping) Q log s)
    (hfresh : NoStaleExpiry calls s es) (hrun : s.run es = some s₁)
    (hlast : lastChange b s es = some t) : UpdatedSince s₁.db b t := by
  induction es using List.reverseRecOn generalizing s₁ t with
  | nil => cases hlast
  | append_singleton es e ih =>
    rw [State.run_append] at hrun
    obtain ⟨s₀, hrun₀, hrun⟩ := Option.bind_eq_some_iff.mp hrun
    obtain ⟨s₁', hs, hnil⟩ := Option.bind_eq_some_iff.mp hrun
    cases hnil
    have hsound := h.run hrun₀
    rw [lastChange_concat hrun₀ hs] at hlast
    cases hchange : changing b s₀ e with
    | some t' =>
      -- the change has just been made
      rw [hchange, Option.some_or] at hlast
      cases hlast
      refine updatedSince_of_changing hsound hs ?_ hchange
      rintro p rfl
      exact hfresh es p s₀ (List.prefix_refl _) hrun₀
    | none =>
      rw [hchange, Option.none_or] at hlast
      obtain ⟨row, hrow, hle⟩ := ih
        (fun es₁ p s₁ hpre => hfresh es₁ p s₁ (hpre.trans (List.prefix_append _ _))) hrun₀ hlast
      -- and the row has not been touched since
      exact ⟨row, by rw [row_of_not_changing hsound hs hchange, hrow], hle⟩

/-- On any database and with any calls, `updatedAt` records the last change along a run exactly if
no stale expiry is committed in it. -/
theorem recordsChanges_iff :
    RecordsChanges (start env calls db nextId clock) es ↔
      NoStaleExpiry calls (start env calls db nextId clock) es := by
  have hsound : Sound (.free backend) (fun p => (calls p).stamping) (fun _ _ _ => True)
      (fun _ => []) (start env calls db nextId clock) :=
    Sound.initial trivial fun p => (calls p).stamps env
  refine ⟨?_, ?_⟩
  · intro hrecords es₁ p s₁ hpre hrun hstale
    -- the commit of a stale expiry would be a change that is not recorded
    obtain ⟨s₂, b, t, hs, hchange, hno⟩ := hstale.not_recorded (hsound.run hrun)
    exact hno (hrecords.change es₁ _ s₁ s₂ b t hpre hrun hs hchange)
  · intro hfresh
    refine ⟨?_, ?_⟩
    · intro es₁ e s₁ s₂ b t hpre hrun hs hchange
      refine updatedSince_of_changing (hsound.run hrun) hs ?_ hchange
      rintro p rfl
      exact hfresh es₁ p s₁ hpre hrun
    · intro es₁ s₁ b t hpre hrun hlast
      refine updatedSince_of_lastChange hsound ?_ hrun hlast
      intro es₂ p s₂ hpre'
      exact hfresh es₂ p s₂ (hpre'.trans hpre)

end Runs

/-- A reservation, and the expiry of its hold when it is over. -/
def expiredInTime : List (Event backend Bool) :=
  [.run true, .run true, .run true, .run true, .run true, .run true, .run true, .tick 300000,
    .run false, .run false, .run false, .run false, .run false, .run false]

/-- The booking is expired since five minutes, and was last updated when it was made. -/
theorem expiry_not_recorded :
    ¬RecordsChanges (start Env.default holdAndExpire oneSeat 1 0) expiredInTime := by
  intro h
  have hrun : (start Env.default holdAndExpire oneSeat 1 0).run expiredInTime = some _ := rfl
  obtain ⟨row, hrow, hle⟩ := h.last expiredInTime _ 1 300000 (List.prefix_refl _) hrun rfl
  have hrow' : some (BookingRow.mk 1 7 .expired (some 300000) 0 0) = some row := hrow
  cases hrow'
  exact absurd hle (by decide)

end ScalableBooking.Booking
