import Mathlib.Algebra.Order.BigOperators.Group.Finset
import ScalableBooking.Booking.Transactions

/-!
# Exactly one winner

Any number of reservations of one available seat, at the same time. Exactly one of them makes
the booking, and all others are told that the seat is not available (`oneWinner_of_run`).
Whatever else runs next to them leaves the seat and its bookings alone (`Contest.Apart`), and is
not looked into.

Each call goes through the stages of `Stage`, so where it stands and what rows it holds is known
exactly (`Contest.At`, `Contest.own`). As long as nobody has committed, the contest is open: the
seat is as it was, and only the holder of its lock is past the `UPDATE`. The commit of that call
decides it: from then on the seat is held, and every other call that comes to its `UPDATE` finds
it so. Every step takes its call closer to its end, and there is always one that can be made.
-/

namespace ScalableBooking.Booking

open ReadCommitted

/-! ### The stages of a reservation -/

/-- The row a reservation inserts. -/
def newBooking (seatId userId holdExpiresAt start : ℕ) : BookingRow :=
  { seatId, userId, status := .pending, holdExpiresAt := some holdExpiresAt,
    createdAt := start, updatedAt := start }

/-- The second statement of the transaction. -/
def insertBooking (seatId userId holdExpiresAt : ℕ) : Tx backend (ℕ × BookingRow) :=
  .insert [.seat seatId, .user userId]
    (fun _ now => newBooking seatId userId holdExpiresAt now)
    fun id inserted => .ret (id, inserted)

/-- What a reservation does after its transaction. -/
def reserved (seatId userId holdExpiresAt : ℕ) : ℕ × BookingRow → Prog backend Result
  | (bookingId, booking) => do
      let _ ← scheduleHoldExpiry bookingId holdExpiresAt
      let _ ← publishBookingEvent .created
        { bookingId, seatId, userId, holdExpiresAt := some holdExpiresAt }
      return .reserved bookingId booking

/-- What it does when it has found the seat. -/
def dated (env : Env) (seatId userId : ℕ) : Prog backend Result :=
  .now fun now => .transaction (reserveSeatTx seatId userId (now + env.holdDurationMs))
    (reserved seatId userId (now + env.holdDurationMs))

theorem reserveSeatTx_eq (seatId userId holdExpiresAt : ℕ) :
    reserveSeatTx seatId userId holdExpiresAt =
      .update (.seat seatId) (fun row => decide (row.status ∈ [SeatStatus.available]))
        (fun row => row.moved .held) fun
      | none => .fail (.seatUnavailable seatId)
      | some _ => insertBooking seatId userId holdExpiresAt := by
  refine congrArg (Tx.update _ _ _) ?_
  ext1 row
  cases row <;> rfl

theorem reserveSeat_eq (env : Env) (seatId userId : ℕ) :
    reserveSeat env seatId userId = .select (.seat seatId) (fun _ => true) fun
      | none => .fail (.seatNotFound seatId)
      | some _ => dated env seatId userId := by
  refine congrArg (Prog.select _ _) ?_
  ext1 row
  cases row <;> rfl

/-- The program ends with the result `r` after `n` steps, whatever it is told. -/
def Ends (r : Result) : ℕ → Prog backend Result → Prop
  | 0, prog => prog = .ret r
  | n + 1, .now next => ∀ t, Ends r n (next t)
  | n + 1, .effect _ next => ∀ reply, Ends r n (next reply)
  | _ + 1, _ => False

theorem reserved_ends (seatId userId holdExpiresAt b : ℕ) (booking : BookingRow) :
    Ends (.reserved b booking) 4 (reserved seatId userId holdExpiresAt (b, booking)) :=
  fun _ _ _ _ => rfl

/-- Where a call of `reserveSeat` stands. -/
inductive Stage where
  | reading
  | dating
  | beginning (holdExpiresAt : ℕ)
  | updating (holdExpiresAt start : ℕ) (scanned : Bool)
  | inserting (holdExpiresAt start : ℕ)
  | committing (holdExpiresAt start b : ℕ)
  | reporting (b : ℕ) (booking : BookingRow) (n : ℕ)
  | losing (holdExpiresAt start : ℕ)
  | lost

namespace Stage

/-- How many steps are left at most. -/
def rank : Stage → ℕ
  | reading => 11
  | dating => 10
  | beginning _ => 9
  | updating _ _ false => 8
  | updating _ _ true => 7
  | inserting _ _ => 6
  | committing _ _ _ => 5
  | reporting _ _ n => n
  | losing _ _ => 1
  | lost => 0

/-- The `UPDATE` of the seat is still to come. -/
def Early : Stage → Prop
  | reading | dating | beginning _ | updating _ _ _ => True
  | _ => False

/-- The seat's row is locked. -/
def Holding : Stage → Prop
  | inserting _ _ | committing _ _ _ => True
  | _ => False

/-- The `UPDATE` has not found an available seat. -/
def Beaten : Stage → Prop
  | losing _ _ | lost => True
  | _ => False

/-- The transaction has committed. -/
def Reporting : Stage → Prop
  | reporting _ _ _ => True
  | _ => False

end Stage

/-- Some calls of `reserveSeat` for one seat, which is available, by users who exist. -/
structure Contest (P : Type) where
  env : Env
  seatId : ℕ
  calls : Finset P
  user : P → ℕ
  before : Db backend
  seat : SeatRow
  nonempty : calls.Nonempty
  there : before (.seat seatId) = some seat
  available : seat.status = .available
  users : ∀ p ∈ calls, (before (.user (user p))).isSome

namespace Contest

variable {P : Type} [DecidableEq P] (c : Contest P)

/-- The call `p` at each of the stages. -/
def At (p : P) : Stage → Proc backend Result → Prop
  | .reading, proc => proc = .outside (reserveSeat c.env c.seatId (c.user p))
  | .dating, proc => proc = .outside (dated c.env c.seatId (c.user p))
  | .beginning hold, proc => proc = .outside
      (.transaction (reserveSeatTx c.seatId (c.user p) hold) (reserved c.seatId (c.user p) hold))
  | .updating hold start scanned, proc => proc = .inside start scanned
      (reserveSeatTx c.seatId (c.user p) hold) (reserved c.seatId (c.user p) hold)
  | .inserting hold start, proc => proc = .inside start false
      (insertBooking c.seatId (c.user p) hold) (reserved c.seatId (c.user p) hold)
  | .committing hold start b, proc => c.before (.booking b) = none ∧ proc = .inside start false
      (.ret (b, newBooking c.seatId (c.user p) hold start)) (reserved c.seatId (c.user p) hold)
  | .reporting b booking n, proc => ∃ prog, proc = .outside prog ∧ Ends (.reserved b booking) n prog
  | .losing hold start, proc => proc = .inside start false
      (.fail (.seatUnavailable c.seatId)) (reserved c.seatId (c.user p) hold)
  | .lost, proc => proc = .outside (.fail (.seatUnavailable c.seatId))

/-- The rows it holds there. -/
def own (p : P) : Stage → Writes backend
  | .inserting _ _ => Writes.empty.write c.before (.seat c.seatId) (c.seat.moved .held)
  | .committing hold start b =>
      (Writes.empty.write c.before (.seat c.seatId) (c.seat.moved .held)).write c.before
        (.booking b) (newBooking c.seatId (c.user p) hold start)
  | _ => Writes.empty

omit [DecidableEq P] in
theorem own_of_holding {p : P} {st : Stage} (hst : st.Holding) :
    c.own p st (.seat c.seatId) = some (c.before (.seat c.seatId), c.seat.moved .held) := by
  cases st with
  | inserting _ _ => exact Writes.write_self _ _ _ _
  | committing _ _ _ => simp [own, Writes.write]
  | _ => exact hst.elim

/-- No other process has a version of the seat, or of a booking that stands on it or is put on
it. -/
def Apart (s : State backend P Result) : Prop :=
  ∀ p ∉ c.calls, (∀ row : SeatRow, s.dirty (.seat c.seatId) ≠ some (p, row)) ∧
    ∀ (b : ℕ) (row : BookingRow), s.dirty (.booking b) = some (p, row) → row.seatId ≠ c.seatId ∧
      ∀ row' : BookingRow, s.db (.booking b) = some row' → row'.seatId ≠ c.seatId

/-- Nobody has won yet. -/
structure Open (s : State backend P Result) (stage : P → Stage) : Prop where
  stage : ∀ p ∈ c.calls, (stage p).Early ∨ (stage p).Holding
  seat : s.db (.seat c.seatId) = some c.seat
  rows : ∀ (b : ℕ) (row : BookingRow), s.db (.booking b) = some row → row.seatId = c.seatId →
    c.before (.booking b) = some row

/-- The call `w` has won, with the booking `b`. -/
structure Decided (s : State backend P Result) (stage : P → Stage) (w : P) (b : ℕ) : Prop where
  mem : w ∈ c.calls
  won : ∃ hold start n, let booking := newBooking c.seatId (c.user w) hold start
    stage w = .reporting b booking n ∧ s.db (.booking b) = some booking
  new : c.before (.booking b) = none
  stage : ∀ p ∈ c.calls, p ≠ w → (stage p).Early ∨ (stage p).Beaten
  seat : s.db (.seat c.seatId) = some (c.seat.moved .held)
  rows : ∀ (b' : ℕ) (row : BookingRow), s.db (.booking b') = some row → row.seatId = c.seatId →
    b' ≠ b → c.before (.booking b') = some row

/-- The invariant of a run. -/
structure Inv (s : State backend P Result) (stage : P → Stage) : Prop where
  at_ : ∀ p ∈ c.calls, c.At p (stage p) (s.procs p)
  own : ∀ p ∈ c.calls, s.own p = c.own p (stage p)
  ahead : s.Ahead
  kept : ∀ k, (c.before k).isSome → (s.db k).isSome
  phase : c.Open s stage ∨ ∃ w b, c.Decided s stage w b

/-! ### What one step does -/

section Phases

variable {c : Contest P} {s s' : State backend P Result} {stage : P → Stage} {p w : P} {b : ℕ}
  {st : Stage}

/-- A step that commits nothing leaves the contest open. -/
theorem Open.stay (h : c.Open s stage) (hdb : s'.db = s.db) (hst : st.Early ∨ st.Holding) :
    c.Open s' (Function.update stage p st) := by
  refine ⟨?_, by rw [hdb]; exact h.seat, by rw [hdb]; exact h.rows⟩
  intro q hq
  by_cases hqp : q = p
  · subst hqp
    rw [Function.update_self]
    exact hst
  · rw [Function.update_of_ne hqp]
    exact h.stage q hq

omit [DecidableEq P] in
/-- Only the winner has committed. -/
theorem Decided.ne_of_not_reporting (h : c.Decided s stage w b) (hp : ¬(stage p).Reporting) :
    p ≠ w := by
  rintro rfl
  obtain ⟨_, _, n, hwon, -⟩ := h.won
  rw [hwon] at hp
  exact hp trivial

/-- A step of another call that commits nothing leaves the winner. -/
theorem Decided.stay (h : c.Decided s stage w b) (hdb : s'.db = s.db) (hp : p ≠ w)
    (hst : st.Early ∨ st.Beaten) : c.Decided s' (Function.update stage p st) w b := by
  refine ⟨h.mem, ?_, h.new, ?_, by rw [hdb]; exact h.seat, by rw [hdb]; exact h.rows⟩
  · obtain ⟨hold, start, n, hwon, hrow⟩ := h.won
    refine ⟨hold, start, n, ?_, by rw [hdb]; exact hrow⟩
    rw [Function.update_of_ne hp.symm, hwon]
  · intro q hq hqw
    by_cases hqp : q = p
    · subst hqp
      rw [Function.update_self]
      exact hst
    · rw [Function.update_of_ne hqp]
      exact h.stage q hq hqw

/-- So does a step of the winner on its way to the end. -/
theorem Decided.report (h : c.Decided s stage w b) (hdb : s'.db = s.db) {b' n n' : ℕ}
    {booking : BookingRow} (hst : stage w = .reporting b' booking n) :
    c.Decided s' (Function.update stage w (.reporting b' booking n')) w b := by
  refine ⟨h.mem, ?_, h.new, ?_, by rw [hdb]; exact h.seat, by rw [hdb]; exact h.rows⟩
  · obtain ⟨hold, start, n, hwon, hrow⟩ := h.won
    rw [hst] at hwon
    cases hwon
    exact ⟨hold, start, n', Function.update_self _ _ _, by rw [hdb]; exact hrow⟩
  · intro q hq hqw
    rw [Function.update_of_ne hqw]
    exact h.stage q hq hqw

end Phases

namespace Inv

variable {c : Contest P} {s s' : State backend P Result} {stage : P → Stage} {p : P} {st : Stage}
  {e : Event backend P}

/-- In both phases the seat is there. -/
theorem seat_isSome (h : c.Inv s stage) : ∃ row, s.db (.seat c.seatId) = some row := by
  obtain hopen | ⟨w, b, hdec⟩ := h.phase
  · exact ⟨_, hopen.seat⟩
  · exact ⟨_, hdec.seat⟩

theorem at_stage (h : c.Inv s stage) (hp : p ∈ c.calls) (hst : stage p = st) :
    c.At p st (s.procs p) := by
  rw [← hst]
  exact h.at_ p hp

/-- A call that holds no row sees the committed ones. -/
theorem view_eq (h : c.Inv s stage) (hp : p ∈ c.calls) (hempty : c.own p (stage p) = Writes.empty) :
    s.view p = s.db := by
  rw [← s.overlay_own p, h.own p hp, hempty, Writes.overlay_empty]

/-- The call `p` comes to the stage `st`, and the other calls stay where they are. -/
theorem move (h : c.Inv s stage) (hs : s.step e = some s') (he : e.actor = some p)
    (hat : c.At p st (s'.procs p)) (hown : s'.own p = c.own p st)
    (hphase : c.Open s' (Function.update stage p st) ∨
      ∃ w b, c.Decided s' (Function.update stage p st) w b) :
    c.Inv s' (Function.update stage p st) := by
  -- what the others are at, and what they have written, the step leaves as it is
  have hne {q : P} (hq : q ≠ p) : e.actor ≠ some q := by
    rw [he]
    rintro ⟨⟩
    exact hq rfl
  refine ⟨?_, ?_, h.ahead.step hs, ?_, hphase⟩
  · intro q hq
    by_cases hqp : q = p
    · subst hqp
      rw [Function.update_self]
      exact hat
    · rw [Function.update_of_ne hqp, (State.step_frame hs).2 q (hne hqp)]
      exact h.at_ q hq
  · intro q hq
    by_cases hqp : q = p
    · subst hqp
      rw [Function.update_self]
      exact hown
    · rw [Function.update_of_ne hqp, State.step_own h.ahead hs (hne hqp)]
      exact h.own q hq
  · intro k hk
    exact State.isSome_step hs (h.kept k hk)

/-- A call whose `UPDATE` is still to come has no part in the phase. -/
theorem stay_early (h : c.Inv s stage) (hdb : s'.db = s.db) (hold : ¬(stage p).Reporting)
    (hst : st.Early) : c.Open s' (Function.update stage p st) ∨
      ∃ w b, c.Decided s' (Function.update stage p st) w b := by
  obtain hopen | ⟨w, b, hdec⟩ := h.phase
  · exact .inl (hopen.stay hdb (.inl hst))
  · exact .inr ⟨w, b, hdec.stay hdb (hdec.ne_of_not_reporting hold) (.inl hst)⟩

/-- A step that touches no row. -/
theorem goto (h : c.Inv s stage) (hp : p ∈ c.calls) {proc : Proc backend Result}
    (hs : s.step e = some (s.goto p proc)) (he : e.actor = some p) (hat : c.At p st proc)
    (hown : c.own p st = c.own p (stage p))
    (hphase : c.Open (s.goto p proc) (Function.update stage p st) ∨
      ∃ w b, c.Decided (s.goto p proc) (Function.update stage p st) w b) :
    c.Inv (s.goto p proc) (Function.update stage p st) := by
  refine h.move hs he ?_ ?_ hphase
  · rw [State.goto_procs_self]
    exact hat
  · rw [hown]
    exact h.own p hp

/-- A step that touches no row and leaves the `UPDATE` to come. -/
theorem goto_early (h : c.Inv s stage) (hp : p ∈ c.calls) {proc : Proc backend Result}
    (hs : s.step e = some (s.goto p proc)) (he : e.actor = some p) (hat : c.At p st proc)
    (hown : c.own p st = c.own p (stage p)) (hold : ¬(stage p).Reporting) (hst : st.Early) :
    c.Inv (s.goto p proc) (Function.update stage p st) :=
  h.goto hp hs he hat hown (h.stay_early rfl hold hst)

theorem reading_step (h : c.Inv s stage) (hp : p ∈ c.calls) (hst : stage p = .reading)
    (hs : s.step (.run p) = some s') : c.Inv s' (Function.update stage p .dating) := by
  have hat := h.at_stage hp hst
  obtain ⟨row, hrow⟩ := h.seat_isSome
  have hstep : s.step (.run p) =
      some (s.goto p (.outside (dated c.env c.seatId (c.user p)))) := by
    rw [State.step, show s.procs p = _ from hat, reserveSeat_eq]
    simp only [hrow, Option.filter_some, if_true]
  rw [hstep] at hs
  cases hs
  exact h.goto_early hp hstep rfl rfl (by rw [hst]; rfl) (by rw [hst]; exact id) trivial

theorem dating_step (h : c.Inv s stage) (hp : p ∈ c.calls) (hst : stage p = .dating)
    (hs : s.step (.run p) = some s') :
    c.Inv s' (Function.update stage p (.beginning (s.clock + c.env.holdDurationMs))) := by
  have hat := h.at_stage hp hst
  have hs' := hs
  rw [State.step, show s.procs p = _ from hat] at hs'
  cases hs'
  exact h.goto_early hp hs rfl rfl (by rw [hst]; rfl) (by rw [hst]; exact id) trivial

theorem beginning_step (h : c.Inv s stage) (hp : p ∈ c.calls) {hold : ℕ}
    (hst : stage p = .beginning hold) (hs : s.step (.run p) = some s') :
    c.Inv s' (Function.update stage p (.updating hold s.clock false)) := by
  have hat := h.at_stage hp hst
  have hs' := hs
  rw [State.step, show s.procs p = _ from hat] at hs'
  cases hs'
  exact h.goto_early hp hs rfl rfl (by rw [hst]; rfl) (by rw [hst]; exact id) trivial

/-- While the contest is open the `UPDATE` finds the seat, and takes it if nobody has its
lock. -/
theorem updating_step_of_open (h : c.Inv s stage) (hp : p ∈ c.calls) {hold start : ℕ}
    {scanned : Bool} (hst : stage p = .updating hold start scanned) (hopen : c.Open s stage)
    (hs : s.step (.run p) = some s') :
    c.Inv s' (Function.update stage p
      (if scanned then .inserting hold start else .updating hold start true)) := by
  have hat := h.at_stage hp hst
  have hfind : (s.view p (.seat c.seatId)).filter
      (fun row : SeatRow => decide (row.status ∈ [SeatStatus.available])) = some c.seat := by
    rw [h.view_eq hp (by rw [hst]; rfl), hopen.seat]
    simp [c.available]
  -- the first time the row is only found, the second time it is locked and written
  have hs' := hs
  rw [State.step, show s.procs p = _ from hat, reserveSeatTx_eq] at hs'
  simp only [State.stepTx, hfind] at hs'
  cases scanned with
  | false =>
    cases hs'
    refine h.goto hp hs rfl ?_ (by rw [hst]; rfl) (.inl (hopen.stay rfl (.inl trivial)))
    show _ = Proc.inside start true _ _
    rw [reserveSeatTx_eq]
  | true =>
    obtain ⟨-, hs'⟩ := Option.ite_none_left_eq_some.mp hs'
    cases hs'
    refine h.move hs rfl (State.goto_procs_self _) ?_
      (.inl (hopen.stay rfl (.inr trivial)))
    show (s.write p (.seat c.seatId) (c.seat.moved .held)).own p = _
    rw [State.own_write_self, h.own p hp, hst]
    exact Writes.write_congr _ (hopen.seat.trans c.there.symm) _

/-- Once it is decided the `UPDATE` finds no available seat. -/
theorem updating_step_of_decided (h : c.Inv s stage) (hp : p ∈ c.calls) {hold start : ℕ}
    {scanned : Bool} (hst : stage p = .updating hold start scanned) {w : P} {b : ℕ}
    (hdec : c.Decided s stage w b) (hs : s.step (.run p) = some s') :
    c.Inv s' (Function.update stage p (.losing hold start)) := by
  have hat := h.at_stage hp hst
  have hfind : (s.view p (.seat c.seatId)).filter
      (fun row : SeatRow => decide (row.status ∈ [SeatStatus.available])) = none := by
    rw [h.view_eq hp (by rw [hst]; rfl), hdec.seat]
    simp [SeatRow.moved]
  have hs' := hs
  rw [State.step, show s.procs p = _ from hat, reserveSeatTx_eq] at hs'
  simp only [State.stepTx, hfind] at hs'
  obtain ⟨-, hs'⟩ := Option.ite_none_left_eq_some.mp hs'
  cases hs'
  have hpw := hdec.ne_of_not_reporting (p := p) (by rw [hst]; exact id)
  exact h.goto hp hs rfl rfl (by rw [hst]; rfl) (.inr ⟨w, b, hdec.stay rfl hpw (.inr trivial)⟩)

/-- A call that holds the seat does so in an open contest. -/
theorem open_of_holding (h : c.Inv s stage) (hp : p ∈ c.calls) (hst : (stage p).Holding) :
    c.Open s stage := by
  obtain hopen | ⟨w, b, hdec⟩ := h.phase
  · exact hopen
  · exfalso
    by_cases hpw : p = w
    · obtain ⟨_, _, n, hwon, -⟩ := hdec.won
      rw [hpw, hwon] at hst
      exact hst
    · have := hdec.stage p hp hpw
      cases hstage : stage p <;> simp [hstage, Stage.Holding, Stage.Early, Stage.Beaten] at hst this

/-- In an open contest nobody is beaten, and nobody has committed. -/
theorem decided_of_stage (h : c.Inv s stage) (hp : p ∈ c.calls) (hearly : ¬(stage p).Early)
    (hholding : ¬(stage p).Holding) : ∃ w b, c.Decided s stage w b := by
  obtain hopen | hdec := h.phase
  · exact absurd (hopen.stage p hp) (not_or.mpr ⟨hearly, hholding⟩)
  · exact hdec

/-- The row is inserted: its key is new, and the seat and the user are there. -/
theorem inserting_step (h : c.Inv s stage) (hp : p ∈ c.calls) {hold start : ℕ}
    (hst : stage p = .inserting hold start) (hs : s.step (.run p) = some s') :
    c.Inv s' (Function.update stage p (.committing hold start s.nextId)) := by
  have hat := h.at_stage hp hst
  have hopen := h.open_of_holding hp (by rw [hst]; trivial)
  have hisSome {k : RowId} (hk : (c.before k).isSome) : (s.view p k).isSome := by
    by_contra hview
    have hnone := State.db_of_view (Option.not_isSome_iff_eq_none.mp hview)
    have hkept := h.kept k hk
    rw [hnone] at hkept
    cases hkept
  have hnew : s.db (.booking s.nextId) = none := (h.ahead s.nextId (Nat.le_refl _)).1
  have hnew' : c.before (.booking s.nextId) = none := by
    by_contra hbefore
    have hkept := h.kept _ (Option.isSome_iff_ne_none.mpr hbefore)
    rw [hnew] at hkept
    cases hkept
  -- the number is free, and the seat and the user are there, so the row is inserted
  have hkeys : (s.view p (backend.serial s.nextId)).isNone ∧
      ∀ k ∈ [RowId.seat c.seatId, .user (c.user p)], (s.view p k).isSome := by
    refine ⟨by rw [h.ahead.view (Nat.le_refl _) p]; rfl, ?_⟩
    intro k hk
    obtain rfl | hk := List.mem_cons.mp hk
    · exact hisSome (by rw [c.there]; rfl)
    · rw [List.mem_singleton.mp hk]
      exact hisSome (c.users p hp)
  have hs' := hs
  rw [State.step, show s.procs p = _ from hat] at hs'
  simp only [insertBooking, State.stepTx] at hs'
  rw [if_pos hkeys] at hs'
  cases hs'
  refine h.move hs rfl ⟨hnew', State.goto_procs_self _⟩ ?_ (.inl (hopen.stay rfl (.inr trivial)))
  show ({ s with nextId := s.nextId + 1 }.write p (.booking s.nextId)
    (newBooking c.seatId (c.user p) hold start)).own p = _
  rw [State.own_write_self]
  show (s.own p).write s.db _ _ = _
  rw [h.own p hp, hst]
  exact Writes.write_congr _ (hnew.trans hnew'.symm) _

theorem dirty_of_holding (h : c.Inv s stage) (hp : p ∈ c.calls) (hst : (stage p).Holding) :
    s.dirty (.seat c.seatId) = some (p, c.seat.moved .held) := by
  have hown := h.own p hp
  exact State.dirty_of_own (by rw [hown, c.own_of_holding hst])

/-- Two calls cannot both hold the seat. -/
theorem eq_of_holding (h : c.Inv s stage) {q : P} (hp : p ∈ c.calls) (hq : q ∈ c.calls)
    (hst : (stage p).Holding) (hst' : (stage q).Holding) : p = q := by
  have hdirty := h.dirty_of_holding hp hst
  rw [h.dirty_of_holding hq hst'] at hdirty
  cases hdirty
  rfl

/-- The commit decides the contest. -/
theorem committing_step (h : c.Inv s stage) (hp : p ∈ c.calls) {hold start b : ℕ}
    (hst : stage p = .committing hold start b) (hs : s.step (.run p) = some s') :
    c.Inv s' (Function.update stage p
      (.reporting b (newBooking c.seatId (c.user p) hold start) 4)) := by
  have hat := h.at_stage hp hst
  have hholding : (stage p).Holding := by
    rw [hst]
    trivial
  have hopen := h.open_of_holding hp hholding
  -- the call sees its own two writes over what is committed
  have hview : s.view p =
      settle s.db b (newBooking c.seatId (c.user p) hold start) (c.seat.moved .held) := by
    rw [← s.overlay_own p, h.own p hp, hst, Contest.own, Writes.overlay_write, Writes.overlay_write,
      Writes.overlay_empty, Function.update_comm (by simp)]
    rfl
  have hs' := hs
  rw [State.step, hat.2] at hs'
  cases hs'
  refine h.move hs rfl ?_ (State.own_dirtyWithout_self (s := s) rfl) (.inr ⟨p, b, ?_⟩)
  · rw [State.goto_procs_self]
    exact ⟨_, rfl, reserved_ends _ _ _ _ _⟩
  show c.Decided ((s.commit p).goto p _) _ p b
  have hdb : ((s.commit p).goto p (.outside (reserved c.seatId (c.user p) hold
      (b, newBooking c.seatId (c.user p) hold start)))).db =
      settle s.db b (newBooking c.seatId (c.user p) hold start) (c.seat.moved .held) := hview
  refine ⟨hp, ⟨hold, start, 4, Function.update_self _ _ _, ?_⟩, hat.1, ?_, ?_, ?_⟩
  · rw [hdb, settle_booking_self]
  · intro q hq hqp
    rw [Function.update_of_ne hqp]
    obtain hearly | hq' := hopen.stage q hq
    · exact .inl hearly
    · -- no other call can hold the seat
      exact absurd (h.eq_of_holding hq hp hq' hholding) hqp
  · rw [hdb]
    exact settle_seat_self
  · intro b' row hrow hseat hb'
    rw [hdb, settle_booking_ne hb'] at hrow
    exact hopen.rows b' row hrow hseat

theorem losing_step (h : c.Inv s stage) (hp : p ∈ c.calls) {hold start : ℕ}
    (hst : stage p = .losing hold start) (hs : s.step (.run p) = some s') :
    c.Inv s' (Function.update stage p .lost) := by
  have hat := h.at_stage hp hst
  have hs' := hs
  rw [State.step, show s.procs p = _ from hat] at hs'
  cases hs'
  obtain ⟨w, b, hdec⟩ := h.decided_of_stage hp (by rw [hst]; exact id) (by rw [hst]; exact id)
  have hpw := hdec.ne_of_not_reporting (p := p) (by rw [hst]; exact id)
  exact h.move hs rfl (State.goto_procs_self _) (State.own_dirtyWithout_self (s := s) rfl)
    (.inr ⟨w, b, hdec.stay rfl hpw (.inr trivial)⟩)

/-- What the winner does after its commit brings it to its end, whatever the queue and the
broker answer. -/
theorem reporting_step (h : c.Inv s stage) (hp : p ∈ c.calls) {b n : ℕ} {booking : BookingRow}
    (hst : stage p = .reporting b booking n) (hs : s.step e = some s') (he : e.actor = some p) :
    ∃ n', n = n' + 1 ∧ c.Inv s' (Function.update stage p (.reporting b booking n')) := by
  have hat := h.at_stage hp hst
  obtain ⟨prog, hprog, hends⟩ := hat
  obtain ⟨n', next, rfl, rfl, hends'⟩ : ∃ n' next, n = n' + 1 ∧
      s' = s.goto p (.outside next) ∧ Ends (.reserved b booking) n' next := by
    cases n with
    | zero =>
      cases hends
      cases e <;> cases he <;> simp [State.step, hprog] at hs
    | succ n' =>
      cases prog with
      | now next =>
        cases e with
        | tick d => cases he
        | run q =>
          cases he
          simp only [State.step, hprog, Option.some.injEq] at hs
          exact ⟨n', _, rfl, hs.symm, hends s.clock⟩
        | reply q r =>
          cases he
          simp [State.step, hprog] at hs
        | fault q =>
          cases he
          simp [State.step, hprog] at hs
      | effect x next =>
        obtain ⟨r, rfl⟩ := State.step_of_effect hprog hs he
        simp only [State.step, hprog, Option.some.injEq] at hs
        exact ⟨n', _, rfl, hs.symm, hends r⟩
      | _ => exact hends.elim
  refine ⟨n', rfl, h.goto hp hs he ⟨next, rfl, hends'⟩ (by rw [hst]; rfl) ?_⟩
  obtain ⟨w, b', hdec⟩ := h.decided_of_stage hp (by rw [hst]; exact id) (by rw [hst]; exact id)
  -- only the winner has something to report
  by_cases hpw : p = w
  · subst hpw
    refine .inr ⟨p, b', hdec.report ?_ hst⟩
    rfl
  · have := hdec.stage p hp hpw
    rw [hst] at this
    simp [Stage.Early, Stage.Beaten] at this

/-- A step of a call takes it closer to its end. -/
theorem step_call (h : c.Inv s stage) (hp : p ∈ c.calls) (hs : s.step e = some s')
    (he : e.actor = some p) (hfault : e ≠ .fault p) :
    ∃ st, st.rank < (stage p).rank ∧ c.Inv s' (Function.update stage p st) := by
  have hat := h.at_ p hp
  by_cases hrep : (stage p).Reporting
  · cases hst : stage p with
    | reporting b booking n =>
      obtain ⟨n', rfl, hinv⟩ := h.reporting_step hp hst hs he
      exact ⟨.reporting b booking n', Nat.lt_succ_self n', hinv⟩
    | _ =>
      rw [hst] at hrep
      exact hrep.elim
  · -- before the commit a call waits for no answer
    have hrun : e = .run p := by
      cases e with
      | tick d => cases he
      | run q =>
        cases he
        rfl
      | reply q r =>
        cases he
        obtain ⟨x, next, hproc, -⟩ := State.step_reply hs
        rw [hproc] at hat
        cases hst : stage p <;> rw [hst] at hat hrep <;>
          first | exact absurd trivial hrep | simp [Contest.At, reserveSeat_eq, dated] at hat
      | fault q =>
        cases he
        exact absurd rfl hfault
    subst hrun
    cases hst : stage p with
    | reading => exact ⟨_, by simp [Stage.rank], h.reading_step hp hst hs⟩
    | dating => exact ⟨_, by simp [Stage.rank], h.dating_step hp hst hs⟩
    | beginning hold => exact ⟨_, by simp [Stage.rank], h.beginning_step hp hst hs⟩
    | updating hold start scanned =>
      obtain hopen | ⟨w, b, hdec⟩ := h.phase
      · refine ⟨_, ?_, h.updating_step_of_open hp hst hopen hs⟩
        cases scanned <;> simp [Stage.rank]
      · refine ⟨_, ?_, h.updating_step_of_decided hp hst hdec hs⟩
        cases scanned <;> simp [Stage.rank]
    | inserting hold start => exact ⟨_, by simp [Stage.rank], h.inserting_step hp hst hs⟩
    | committing hold start b => exact ⟨_, by simp [Stage.rank], h.committing_step hp hst hs⟩
    | reporting b booking n =>
      rw [hst] at hrep
      exact absurd trivial hrep
    | losing hold start => exact ⟨_, by simp [Stage.rank], h.losing_step hp hst hs⟩
    | lost =>
      rw [hst] at hat
      simp [State.step, show s.procs p = _ from hat] at hs

/-- A step of anybody else leaves the contest as it is. -/
theorem step_other (h : c.Inv s stage) (hapart : c.Apart s) (hs : s.step e = some s')
    (he : ∀ p ∈ c.calls, e.actor ≠ some p) : c.Inv s' stage := by
  -- the seat and the bookings on it are the same
  have hrows : s'.db (.seat c.seatId) = s.db (.seat c.seatId) ∧ ∀ (b : ℕ) (row : BookingRow),
      row.seatId = c.seatId → (s'.db (.booking b) = some row ↔ s.db (.booking b) = some row) := by
    obtain hdb | ⟨q, β, t, scanned, a, next, rfl, -, hdb⟩ := State.db_of_step hs
    · rw [hdb]
      exact ⟨rfl, fun _ _ _ => Iff.rfl⟩
    · have hq : q ∉ c.calls := fun hq => he q hq rfl
      rw [hdb]
      obtain ⟨hseat, hbooking⟩ := hapart q hq
      refine ⟨?_, ?_⟩
      · obtain ⟨row, hdirty, -⟩ | ⟨-, hview⟩ := s.view_cases q (.seat c.seatId)
        · exact absurd hdirty (hseat row)
        · exact hview
      · intro b row hrow
        obtain ⟨row', hdirty, hview⟩ | ⟨-, hview⟩ := s.view_cases q (.booking b)
        · -- a booking that `q` has written neither stood on the seat nor does now
          obtain ⟨hne, hne'⟩ := hbooking b row' hdirty
          rw [hview]
          refine ⟨?_, fun hold => absurd hrow (hne' row hold)⟩
          rintro ⟨⟩
          exact absurd hrow hne
        · rw [hview]
  obtain ⟨hseat, hbooking⟩ := hrows
  have hne (q : P) (hq : q ∈ c.calls) : e.actor ≠ some q := he q hq
  refine ⟨?_, ?_, h.ahead.step hs, ?_, ?_⟩
  · intro q hq
    rw [(State.step_frame hs).2 q (hne q hq)]
    exact h.at_ q hq
  · intro q hq
    rw [State.step_own h.ahead hs (hne q hq)]
    exact h.own q hq
  · intro k hk
    exact State.isSome_step hs (h.kept k hk)
  · obtain hopen | ⟨w, b, hdec⟩ := h.phase
    · refine .inl ⟨hopen.stage, hseat.trans hopen.seat, ?_⟩
      intro b row hrow hi
      exact hopen.rows b row ((hbooking b row hi).mp hrow) hi
    · refine .inr ⟨w, b, hdec.mem, ?_, hdec.new, hdec.stage, hseat.trans hdec.seat, ?_⟩
      · obtain ⟨hold, start, n, hwon, hrow⟩ := hdec.won
        exact ⟨hold, start, n, hwon, (hbooking b _ rfl).mpr hrow⟩
      · intro b' row hrow hi hb'
        exact hdec.rows b' row ((hbooking b' row hi).mp hrow) hi hb'

/-- The holder of the seat waits for nobody. -/
theorem isSome_of_holding (h : c.Inv s stage) (hp : p ∈ c.calls) (hst : (stage p).Holding) :
    (s.step (.run p)).isSome := by
  cases hstage : stage p with
  | inserting hold start =>
    rw [State.step, show s.procs p = _ from h.at_stage hp hstage]
    exact State.isSome_stepTx fun _ _ _ _ hbody => by cases hbody
  | committing hold start b =>
    rw [State.step, (h.at_stage hp hstage).2]
    exact State.isSome_stepTx fun _ _ _ _ hbody => by cases hbody
  | _ =>
    rw [hstage] at hst
    exact hst.elim

/-- Unless all calls are over, one of them can make a step: the holder of the lock, or the call
itself. -/
theorem progress (h : c.Inv s stage) (hapart : c.Apart s) (hp : p ∈ c.calls)
    (hunfinished : ¬s.Finished p) :
    ∃ q ∈ c.calls, ∃ e, e.actor = some q ∧ e ≠ .fault q ∧ (s.step e).isSome := by
  have hrun {q : P} (hq : q ∈ c.calls) (hs : (s.step (.run q)).isSome) :
      ∃ q ∈ c.calls, ∃ e, e.actor = some q ∧ e ≠ .fault q ∧ (s.step e).isSome :=
    ⟨q, hq, .run q, rfl, by simp, hs⟩
  by_cases hlock : s.Locked p (.seat c.seatId)
  · obtain ⟨⟨q, row⟩, hdirty, -⟩ := hlock
    have hq : q ∈ c.calls := by
      by_contra hq
      exact (hapart q hq).1 row hdirty
    refine hrun hq (h.isSome_of_holding hq ?_)
    -- whoever is not past the `UPDATE` holds nothing
    have hown := congrFun (h.own q hq) (.seat c.seatId)
    rw [State.own_of_self hdirty] at hown
    cases hst : stage q with
    | inserting hold start => trivial
    | committing hold start b => trivial
    | _ =>
      rw [hst] at hown
      cases hown
  · have hat := h.at_ p hp
    cases hst : stage p with
    | reporting b booking n =>
      rw [hst] at hat
      obtain ⟨prog, hprog, hends⟩ := hat
      cases n with
      | zero =>
        cases hends
        exact absurd (.inl ⟨_, hprog⟩) hunfinished
      | succ n =>
        cases prog with
        | now next => exact hrun hp (by simp [State.step, hprog])
        | effect x next =>
          exact ⟨p, hp, .reply p .resolved, rfl, by simp, by simp [State.step, hprog]⟩
        | _ => exact hends.elim
    | lost =>
      rw [hst] at hat
      exact absurd (.inr ⟨_, hat⟩) hunfinished
    | updating hold start scanned =>
      rw [hst] at hat
      refine hrun hp ?_
      rw [State.step, show s.procs p = _ from hat]
      refine State.isSome_stepTx ?_
      rw [reserveSeatTx_eq]
      rintro k _ _ _ ⟨⟩
      exact hlock
    | inserting hold start => exact hrun hp (h.isSome_of_holding hp (by rw [hst]; trivial))
    | committing hold start b => exact hrun hp (h.isSome_of_holding hp (by rw [hst]; trivial))
    | _ =>
      rw [hst] at hat
      refine hrun hp ?_
      rw [State.step, show s.procs p = _ from hat]
      rfl

/-! ### Runs -/

theorem start {code : P → Prog backend Result} {nextId clock : ℕ}
    (hcode : ∀ p ∈ c.calls, code p = reserveSeat c.env c.seatId (c.user p))
    (hfresh : ∀ n, nextId ≤ n → c.before (.booking n) = none) :
    c.Inv (State.initial c.before nextId clock code) fun _ => .reading where
  at_ p hp := congrArg Proc.outside (hcode p hp)
  own _ _ := rfl
  ahead n hn := ⟨hfresh n hn, rfl⟩
  kept _ hk := hk
  phase := .inl ⟨fun _ _ => .inl trivial, c.there, fun _ _ hrow _ => hrow⟩

/-- In a run without faults every step of a call spends one of its steps. -/
theorem run (h : c.Inv s stage) {es : List (Event backend P)} (hrun : s.run es = some s')
    (hfault : ∀ p ∈ c.calls, Event.fault p ∉ es) (hapart : s.Along c.Apart es) :
    ∃ stage', c.Inv s' stage' ∧
      es.countP (fun e => ∃ p ∈ c.calls, e.actor = some p) + ∑ p ∈ c.calls, (stage' p).rank ≤
        ∑ p ∈ c.calls, (stage p).rank := by
  induction es generalizing s stage with
  | nil =>
    cases hrun
    exact ⟨stage, h, by simp⟩
  | cons e es ih =>
    obtain ⟨s₁, hs, hrun⟩ := Option.bind_eq_some_iff.mp hrun
    have hfault' : ∀ p ∈ c.calls, Event.fault p ∉ es := by
      intro p hp he
      exact hfault p hp (List.mem_cons_of_mem _ he)
    by_cases he : ∃ p ∈ c.calls, e.actor = some p
    · obtain ⟨p, hp, hactor⟩ := he
      have hne : e ≠ .fault p := by
        rintro rfl
        exact hfault p hp List.mem_cons_self
      obtain ⟨st, hrank, h₁⟩ := h.step_call hp hs hactor hne
      obtain ⟨stage', h', hle⟩ := ih h₁ hrun hfault' (hapart.2 s₁ hs)
      -- a step of a call lowers its rank, and no other
      have hlt : ∑ q ∈ c.calls, (Function.update stage p st q).rank <
          ∑ q ∈ c.calls, (stage q).rank := by
        refine Finset.sum_lt_sum ?_ ⟨p, hp, by simpa using hrank⟩
        intro q _
        by_cases hq : q = p
        · subst hq
          simpa using hrank.le
        · simp [hq]
      refine ⟨stage', h', ?_⟩
      rw [List.countP_cons_of_pos (by simpa using ⟨p, hp, hactor⟩)]
      omega
    · have he' : ∀ p ∈ c.calls, e.actor ≠ some p := fun p hp hactor => he ⟨p, hp, hactor⟩
      obtain ⟨stage', h', hle⟩ := ih (h.step_other hapart.head hs he') hrun hfault' (hapart.2 s₁ hs)
      refine ⟨stage', h', ?_⟩
      rw [List.countP_cons_of_neg (by simpa using he')]
      exact hle

end Inv

variable {c}

/-- The contest is over in the state `s`: the call `w` has won with the booking `b`, and all the
others have lost. -/
structure Won (c : Contest P) (s : State backend P Result) (w : P) (b : ℕ) : Prop where
  mem : w ∈ c.calls
  /-- The winner resolves with the booking, which is pending and its own. -/
  winner : ∃ booking : BookingRow, s.procs w = .outside (.ret (.reserved b booking)) ∧
    s.db (.booking b) = some booking ∧ booking.seatId = c.seatId ∧
    booking.userId = c.user w ∧ booking.status = .pending
  loser : ∀ p ∈ c.calls, p ≠ w → s.procs p = .outside (.fail (.seatUnavailable c.seatId))
  seat : s.db (.seat c.seatId) = some { status := .held, version := c.seat.version + 1 }
  /-- There is no other new booking on the seat. -/
  one : ∀ b', (c.before (.booking b') = none ∧ ∃ row : BookingRow,
    s.db (.booking b') = some row ∧ row.seatId = c.seatId) ↔ b' = b

/-- A call that has come to its end is at one of the two last stages. -/
theorem Inv.stage_of_finished {s : State backend P Result} {stage : P → Stage} {p : P}
    (h : c.Inv s stage) (hp : p ∈ c.calls) (hfinished : s.Finished p) :
    stage p = .lost ∨ ∃ b booking, stage p = .reporting b booking 0 := by
  have hat := h.at_ p hp
  obtain ⟨prog, hprog, hend⟩ : ∃ prog, s.procs p = .outside prog ∧
      ((∃ a, prog = .ret a) ∨ ∃ e, prog = .fail e) := by
    obtain ⟨a, ha⟩ | ⟨e, he⟩ := hfinished
    · exact ⟨_, ha, .inl ⟨a, rfl⟩⟩
    · exact ⟨_, he, .inr ⟨e, rfl⟩⟩
  rw [hprog] at hat
  cases hst : stage p with
  | lost => exact .inl rfl
  | reporting b booking n =>
    rw [hst] at hat
    obtain ⟨prog', heq, hends⟩ := hat
    cases heq
    cases n with
    | zero => exact .inr ⟨b, booking, rfl⟩
    | succ n =>
      obtain ⟨a, rfl⟩ | ⟨e, rfl⟩ := hend
      · exact hends.elim
      · exact hends.elim
  | _ =>
    rw [hst] at hat
    obtain ⟨a, rfl⟩ | ⟨e, rfl⟩ := hend
    · simp [Contest.At, reserveSeat_eq, dated] at hat
    · simp [Contest.At, reserveSeat_eq, dated] at hat

/-- A contest in which all calls have come to their end is over. -/
theorem Inv.won {s : State backend P Result} {stage : P → Stage} (h : c.Inv s stage)
    (hfinished : ∀ p ∈ c.calls, s.Finished p) : ∃ w b, c.Won s w b := by
  have hlast {p : P} (hp : p ∈ c.calls) := h.stage_of_finished hp (hfinished p hp)
  obtain hopen | ⟨w, b, hdec⟩ := h.phase
  · -- somebody takes part, and has not come to its end in an open contest
    obtain ⟨p, hp⟩ := c.nonempty
    have hst := hopen.stage p hp
    obtain hlost | ⟨b, booking, hrep⟩ := hlast hp
    · simp [hlost, Stage.Early, Stage.Holding] at hst
    · simp [hrep, Stage.Early, Stage.Holding] at hst
  · obtain ⟨hold, start, n, hwon, hrow⟩ := hdec.won
    refine ⟨w, b, hdec.mem, ?_, ?_, hdec.seat, ?_⟩
    · have hat := h.at_ w hdec.mem
      rw [hwon] at hat
      obtain ⟨prog, hprog, hends⟩ := hat
      obtain hlost | ⟨b', booking, hrep⟩ := hlast hdec.mem
      · rw [hwon] at hlost
        cases hlost
      · rw [hwon] at hrep
        cases hrep
        cases hends
        exact ⟨_, hprog, hrow, rfl, rfl, rfl⟩
    · intro p hp hpw
      have hat := h.at_ p hp
      have hst := hdec.stage p hp hpw
      obtain hlost | ⟨b', booking, hrep⟩ := hlast hp
      · rw [hlost] at hat
        exact hat
      · simp [hrep, Stage.Early, Stage.Beaten] at hst
    · intro b'
      refine ⟨?_, ?_⟩
      · rintro ⟨hnew, row, hrow', hseat⟩
        by_contra hb'
        rw [hdec.rows b' row hrow' hseat hb'] at hnew
        cases hnew
      · rintro rfl
        exact ⟨hdec.new, _, hrow, rfl⟩

/-- In every run with a contest and no fault in it, the calls come to their end: each makes at
most eleven steps, and as long as one is not over some call can make a step. When all are over,
exactly one has won. -/
theorem oneWinner_of_run {code : P → Prog backend Result} {nextId clock : ℕ}
    (hcode : ∀ p ∈ c.calls, code p = reserveSeat c.env c.seatId (c.user p))
    (hfresh : ∀ n, nextId ≤ n → c.before (.booking n) = none)
    {es : List (Event backend P)} {s : State backend P Result}
    (hrun : (State.initial c.before nextId clock code).run es = some s)
    (hfault : ∀ p ∈ c.calls, Event.fault p ∉ es)
    (hapart : (State.initial c.before nextId clock code).Along c.Apart es) :
    es.countP (fun e => ∃ p ∈ c.calls, e.actor = some p) ≤ 11 * c.calls.card ∧
    ((∃ p ∈ c.calls, ¬s.Finished p) →
      ∃ q ∈ c.calls, ∃ e, e.actor = some q ∧ e ≠ .fault q ∧ (s.step e).isSome) ∧
    ((∀ p ∈ c.calls, s.Finished p) → ∃ w b, c.Won s w b) := by
  obtain ⟨stage, h, hcount⟩ := (Inv.start hcode hfresh).run hrun hfault hapart
  refine ⟨?_, ?_, h.won⟩
  · rw [Finset.sum_const, Nat.nsmul_eq_mul, Nat.mul_comm] at hcount
    exact Nat.le_trans (Nat.le_add_right _ _) hcount
  · rintro ⟨p, hp, hunfinished⟩
    exact h.progress (hapart.last hrun) hp hunfinished

end Contest

/-- Two reservations of one seat. -/
def twoCalls : Contest Bool where
  env := .default
  seatId := 1
  calls := Finset.univ
  user _ := 7
  before := oneSeat
  seat := { status := .available, version := 0 }
  nonempty := Finset.univ_nonempty
  there := rfl
  available := rfl
  users _ _ := rfl

/-- The second finds the seat on its snapshot, waits, and loses. -/
def photoFinish : List (Event backend Bool) :=
  [.run true, .run false, .run true, .run false, .run true, .run false, .run true, .run false,
    .run true, .run true, .run true, .run false, .run false, .run true, .reply true .resolved,
    .run true, .reply true .resolved]

theorem oneWinner_of_run_twoCalls :
    ∃ s, (State.initial oneSeat 1 0 fun _ => reserveSeat .default 1 7).run photoFinish = some s ∧
      (∀ p, s.Finished p) ∧ ∃ w b, twoCalls.Won s w b := by
  obtain ⟨s, hrun, hwinner, hloser⟩ : ∃ s,
      (State.initial oneSeat 1 0 fun _ => reserveSeat .default 1 7).run photoFinish = some s ∧
        (∃ r, s.procs true = .outside (.ret r)) ∧ ∃ e, s.procs false = .outside (.fail e) :=
    ⟨_, rfl, ⟨_, rfl⟩, ⟨_, rfl⟩⟩
  have hfinished : ∀ p, s.Finished p := by
    intro p
    cases p with
    | true => exact .inl hwinner
    | false => exact .inr hloser
  -- nobody else is there
  have hapart (s : State backend Bool Result) : twoCalls.Apart s :=
    fun p hp => absurd (Finset.mem_univ p) hp
  obtain ⟨-, -, hwon⟩ := twoCalls.oneWinner_of_run (fun _ _ => rfl) (fun _ _ => rfl) hrun
    (by simp [photoFinish]) (State.Along.of_forall hapart _)
  exact ⟨s, hrun, hfinished, hwon fun p _ => hfinished p⟩

end ScalableBooking.Booking
