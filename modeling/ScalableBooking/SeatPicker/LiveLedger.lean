import ScalableBooking.Booking.SeatLedger
import ScalableBooking.SeatPicker.Convergence

/-!
# The seat map over the booking module

The two halves of the system in one run. Calls of the use cases run statement by statement, and a
page watches the seats of one event. A commit of the backend is a change that the connector captures
for each seat of the event whose row is new, and the page hears of it, or does not.

The page copies what the database says, and the database shows the ledger. So in a run that spares
the page, a seat map that has caught up shows the ledger: a seat is available there if it is free,
held if a booking holds it, and booked if one has confirmed it (`showsLedger_of_run`).
-/

namespace ScalableBooking.SeatPicker

open Booking (SeatStatus SeatRow Call Result Env Ledger Represents Untouched BookingError)
open Realtime Replica

/-! ### Runs of both -/

/-- `seats.status`. An id without a row has none. -/
def statuses (db : ReadCommitted.Db Booking.backend) (i : ℕ) : SeatStatus :=
  (db (.seat i)).elim .available SeatRow.status

/-- A statement of the backend, with the changes that the connector captures if it commits, or an
event of the page. -/
inductive LiveEvent (P : Type) where
  | statement (e : ReadCommitted.Event Booking.backend P) (changes : List (ℕ × SeatStatus))
  | page (e : Event ℕ)

section Runs

variable {P : Type}

/-- What the backend does in a run. -/
def statements (es : List (LiveEvent P)) : List (ReadCommitted.Event Booking.backend P) :=
  es.filterMap fun
    | .statement e _ => some e
    | .page _ => none

/-- Some changes are committed. -/
def commitAll (changes : List (ℕ × SeatStatus)) : List (Event ℕ) :=
  changes.map fun change => .commit change.1 change.2

/-- What the page and its server see of a run. -/
def pageEvents (es : List (LiveEvent P)) : List (Event ℕ) :=
  es.flatMap fun
    | .statement _ changes => commitAll changes
    | .page e => [e]

@[simp] theorem statements_statement {e : ReadCommitted.Event Booking.backend P}
    {changes : List (ℕ × SeatStatus)} {es : List (LiveEvent P)} :
    statements (.statement e changes :: es) = e :: statements es := rfl

@[simp] theorem statements_page {e : Event ℕ} {es : List (LiveEvent P)} :
    statements (.page e :: es) = statements es := rfl

@[simp] theorem pageEvents_statement {e : ReadCommitted.Event Booking.backend P}
    {changes : List (ℕ × SeatStatus)} {es : List (LiveEvent P)} :
    pageEvents (.statement e changes :: es) = commitAll changes ++ pageEvents es := rfl

@[simp] theorem pageEvents_page {e : Event ℕ} {es : List (LiveEvent P)} :
    pageEvents (.page e :: es) = e :: pageEvents es := rfl

/-- The changes of the seats of an event: those whose row is new, with the status it has now. -/
def Captures (eventOf : ℕ → ℕ) (view : View ℕ) (db db' : ReadCommitted.Db Booking.backend)
    (changes : List (ℕ × SeatStatus)) : Prop :=
  ∀ i status, (i, status) ∈ changes ↔ eventOf i = view.eventId ∧ db (.seat i) ≠ db' (.seat i) ∧
    ∃ row : SeatRow, db' (.seat i) = some row ∧ row.status = status

variable [DecidableEq P]

/-- A run of the backend and of a page, interleaved. `eventOf` is `seats.event_id`, which nothing
writes. -/
inductive LiveRun (eventOf : ℕ → ℕ) (view : View ℕ) :
    ReadCommitted.State Booking.backend P Result → State ℕ → List (LiveEvent P) →
      ReadCommitted.State Booking.backend P Result → State ℕ → Prop
  | nil {b : ReadCommitted.State Booking.backend P Result} {s : State ℕ} :
      LiveRun eventOf view b s [] b s
  | statement {b b₁ b' : ReadCommitted.State Booking.backend P Result} {s s₁ s' : State ℕ}
      {e : ReadCommitted.Event Booking.backend P} {changes : List (ℕ × SeatStatus)}
      {es : List (LiveEvent P)} (hstep : b.step e = some b₁)
      (hchanges : Captures eventOf view b.db b₁.db changes)
      (hpage : s.run view (commitAll changes) = some s₁)
      (hrest : LiveRun eventOf view b₁ s₁ es b' s') :
      LiveRun eventOf view b s (.statement e changes :: es) b' s'
  | page {b b' : ReadCommitted.State Booking.backend P Result} {s s₁ s' : State ℕ} {e : Event ℕ}
      {es : List (LiveEvent P)} (hcommit : ∀ i status, e ≠ .commit i status)
      (hpage : s.step view e = some s₁) (hrest : LiveRun eventOf view b s₁ es b' s') :
      LiveRun eventOf view b s (.page e :: es) b' s'

variable {eventOf : ℕ → ℕ} {view : View ℕ} {b b' : ReadCommitted.State Booking.backend P Result}
  {s s' : State ℕ} {es : List (LiveEvent P)}

theorem State.run_append {s : State ℕ} (es es' : List (Event ℕ)) :
    s.run view (es ++ es') = (s.run view es).bind fun s' => s'.run view es' := by
  induction es generalizing s with
  | nil => rfl
  | cons e es ih =>
    rw [List.cons_append, State.run, State.run, Option.bind_assoc]
    simp only [ih]

/-- It is a run of the backend. -/
theorem LiveRun.backend (h : LiveRun eventOf view b s es b' s') :
    b.run (statements es) = some b' := by
  induction h with
  | nil => rfl
  | statement hstep _ _ _ ih =>
    rw [statements_statement, ReadCommitted.State.run, hstep]
    exact ih
  | page _ _ _ ih => exact ih

/-- And one of the page. -/
theorem LiveRun.page_run (h : LiveRun eventOf view b s es b' s') :
    s.run view (pageEvents es) = some s' := by
  induction h with
  | nil => rfl
  | statement _ _ hpage _ ih =>
    rw [pageEvents_statement, State.run_append, hpage]
    exact ih
  | page _ hpage _ ih =>
    rw [pageEvents_page, State.run, hpage]
    exact ih

/-! ### The database of the page -/

omit [DecidableEq P] in
/-- After some changes a seat has the status of one of them, or there is none for it. -/
theorem db_commitAll {changes : List (ℕ × SeatStatus)}
    (hs : s.run view (commitAll changes) = some s') (i : ℕ) :
    (i, s'.db i) ∈ changes ∨ s'.db i = s.db i ∧ ∀ status, (i, status) ∉ changes := by
  induction changes generalizing s with
  | nil =>
    obtain rfl : s = s' := Option.some.inj hs
    exact .inr ⟨rfl, fun _ => List.not_mem_nil⟩
  | cons change changes ih =>
    obtain ⟨j, status⟩ := change
    obtain ⟨s₁, hs₁, hs⟩ := Option.bind_eq_some_iff.mp hs
    obtain rfl : _ = s₁ := Option.some.inj hs₁
    obtain hmem | ⟨heq, hnone⟩ := ih hs
    · exact .inl (List.mem_cons_of_mem _ hmem)
    · dsimp only at heq
      by_cases hij : i = j
      · subst hij
        rw [Function.update_self] at heq
        exact .inl (heq ▸ List.mem_cons_self)
      · rw [Function.update_of_ne hij] at heq
        refine .inr ⟨heq, fun status' hmem => ?_⟩
        obtain heq' | hmem := List.mem_cons.mp hmem
        · exact hij (Prod.mk.inj heq').1
        · exact hnone status' hmem

/-- Nothing but a commit writes the database. -/
theorem db_step {e : Event ℕ} (hs : s.step view e = some s')
    (hcommit : ∀ i status, e ≠ .commit i status) : s'.db = s.db := by
  cases e with
  | commit i status => exact absurd rfl (hcommit i status)
  | consume =>
    simp only [State.step] at hs
    split at hs
    · cases hs
    · split at hs <;> cases hs <;> rfl
  | click seat =>
    simp only [State.step] at hs
    split at hs
    · cases hs
    · split at hs
      · cases hs
        rfl
      · cases hs
  | _ =>
    simp only [State.step] at hs
    split at hs <;> cases hs
    all_goals rfl

/-- What is shown, and what is on its way in an answer, are seats that the request finds. -/
structure Listed (view : View ℕ) (s : State ℕ) : Prop where
  shown : ∀ seats, s.page.seats = some seats → ∀ seat ∈ seats, seat.id ∈ view.seatIds
  answered : ∀ seats, s.request = .answered seats → ∀ seat ∈ seats, seat.id ∈ view.seatIds

theorem Listed.start (db : ℕ → SeatStatus) : Listed view (.start db) where
  shown _ h := by cases h
  answered _ h := by cases h

theorem Listed.step {e : Event ℕ} (h : Listed view s) (hs : s.step view e = some s') :
    Listed view s' := by
  cases e with
  | commit i status =>
    cases hs
    exact ⟨h.shown, h.answered⟩
  | consume =>
    simp only [State.step] at hs
    split at hs
    · cases hs
    · split at hs <;> cases hs <;> exact ⟨h.shown, h.answered⟩
  | read =>
    simp only [State.step] at hs
    split at hs <;> cases hs
    refine ⟨h.shown, ?_⟩
    rintro _ ⟨⟩ seat hseat
    obtain ⟨i, hi, rfl⟩ := List.mem_map.mp hseat
    exact hi
  | respond =>
    simp only [State.step] at hs
    split at hs <;> cases hs
    refine ⟨?_, fun _ h => by cases h⟩
    rintro _ ⟨⟩
    exact h.answered _ ‹_›
  | fail =>
    simp only [State.step] at hs
    split at hs <;> cases hs
    all_goals exact ⟨h.shown, fun _ h => by cases h⟩
  | deliver =>
    simp only [State.step] at hs
    split at hs <;> cases hs
    refine ⟨fun seats hseats seat hseat => ?_, h.answered⟩
    obtain ⟨prev, hprev, rfl⟩ := Option.map_eq_some_iff.mp hseats
    obtain ⟨seat, hmem, rfl⟩ := List.mem_map.mp hseat
    have hid := h.shown prev hprev seat hmem
    split <;> exact hid
  | click seat =>
    simp only [State.step] at hs
    split at hs
    · cases hs
    · split at hs <;> cases hs
      refine ⟨fun seats hseats => ?_, h.answered⟩
      rw [State.seats_toggleSeat] at hseats
      exact h.shown seats hseats
  | _ =>
    simp only [State.step] at hs
    split at hs <;> cases hs
    exact ⟨h.shown, h.answered⟩

theorem Listed.commitAll {changes : List (ℕ × SeatStatus)} (h : Listed view s)
    (hs : s.run view (commitAll changes) = some s') : Listed view s' := by
  induction changes generalizing s with
  | nil =>
    obtain rfl : s = s' := Option.some.inj hs
    exact h
  | cons change changes ih =>
    obtain ⟨s₁, hs₁, hs⟩ := Option.bind_eq_some_iff.mp hs
    exact ih (h.step hs₁) hs

/-! ### Both together -/

/-- The page's database is the one of the backend, as far as the event goes, and every seat that its
request finds has a row. -/
structure Mirrors (eventOf : ℕ → ℕ) (view : View ℕ)
    (b : ReadCommitted.State Booking.backend P Result) (s : State ℕ) : Prop where
  db : ∀ i, eventOf i = view.eventId → s.db i = statuses b.db i
  rows : ∀ i ∈ view.seatIds, (b.db (.seat i)).isSome
  listed : Listed view s

/-- Rows do not go away. -/
theorem isSome_of_step {b₁ : ReadCommitted.State Booking.backend P Result}
    {e : ReadCommitted.Event Booking.backend P} (hs : b.step e = some b₁) {i : ℕ}
    (hi : (b.db (.seat i)).isSome) : (b₁.db (.seat i)).isSome := by
  obtain heq | ⟨p, _, _, _, _, _, -, -, heq⟩ := ReadCommitted.State.db_of_step hs
  · rwa [heq]
  · rw [heq]
    by_contra hnone
    rw [ReadCommitted.State.db_of_view (Option.not_isSome_iff_eq_none.mp hnone)] at hi
    cases hi

/-- The captured changes are what the page misses. -/
theorem statuses_of_captures {db db' : ReadCommitted.Db Booking.backend}
    {changes : List (ℕ × SeatStatus)} (hchanges : Captures eventOf view db db' changes)
    (hrows : ∀ i, (db (.seat i)).isSome → (db' (.seat i)).isSome)
    (hpage : s.run view (commitAll changes) = some s') {i : ℕ} (hi : eventOf i = view.eventId)
    (hdb : s.db i = statuses db i) : s'.db i = statuses db' i := by
  obtain hmem | ⟨heq, hnone⟩ := db_commitAll hpage i
  · obtain ⟨-, -, row, hrow, hstatus⟩ := (hchanges i (s'.db i)).mp hmem
    rw [statuses, hrow, ← hstatus]
    rfl
  · rw [heq, hdb]
    by_contra hne
    have hnew : db (.seat i) ≠ db' (.seat i) := by
      intro hsame
      exact hne (by rw [statuses, statuses, hsame])
    cases hrow : db' (.seat i) with
    | none =>
      cases hold : db (.seat i) with
      | none => exact hnew (hold.trans hrow.symm)
      | some row =>
        have hsome := hrows i (by rw [hold]; rfl)
        rw [hrow] at hsome
        cases hsome
    | some row => exact hnone row.status ((hchanges i _).mpr ⟨hi, hnew, row, hrow, rfl⟩)

/-- **The run lemma.** -/
theorem Mirrors.of_run (h : Mirrors eventOf view b s) (hrun : LiveRun eventOf view b s es b' s') :
    Mirrors eventOf view b' s' := by
  induction hrun with
  | nil => exact h
  | statement hstep hchanges hpage _ ih =>
    refine ih ⟨fun i hi => ?_, fun i hi => isSome_of_step hstep (h.rows i hi),
      h.listed.commitAll hpage⟩
    exact statuses_of_captures hchanges (fun i => isSome_of_step hstep) hpage hi (h.db i hi)
  | page hcommit hpage _ ih =>
    refine ih ⟨fun i hi => ?_, h.rows, h.listed.step hpage⟩
    rw [db_step hpage hcommit]
    exact h.db i hi

/-- The request of the page finds seats of its event that are there. -/
def View.Finds (eventOf : ℕ → ℕ) (view : View ℕ) (db : ReadCommitted.Db Booking.backend) : Prop :=
  ∀ i ∈ view.seatIds, eventOf i = view.eventId ∧ (db (.seat i)).isSome

/-- **The seat map shows the ledger.** The calls have the outcomes of steps on the ledger, one after
another from the empty one. A page that has been spared, that is connected and has nothing more to
hear of, shows each of its seats as that ledger has it. -/
theorem showsLedger_of_run {env : Env} {calls : P → Call} {db : ReadCommitted.Db Booking.backend}
    {nextId clock : ℕ} (h : Untouched db) (hfinds : view.Finds eventOf db)
    (hrun : LiveRun eventOf view (Booking.start env calls db nextId clock) (.start (statuses db))
      es b s)
    (hsparing : (State.start (statuses db)).Sparing view (pageEvents es)) :
    ∃ (order : List (P × ReadCommitted.Outcome Booking.backend Result)) (ledger : Ledger),
      (order.map Prod.fst).Nodup ∧ ReadCommitted.Placed (statements es) order ∧
      (∀ p o, (b.procs p).outcome? = some o → o ≠ .error BookingError.infrastructure →
        (p, o) ∈ order) ∧
      Ledger.Executes calls (fun _ => .free) order ledger ∧
      ∀ seats, s.page.seats = some seats → s.connection = .opened → s.inFlight = [] →
        s.captured = [] → ∀ seat ∈ seats, seat.status = (ledger seat.id).seatStatus := by
  obtain ⟨order, horder⟩ := ReadCommitted.exists_linearization (Booking.start_sound h)
    (fun p => (calls p).linear env) hrun.backend
  obtain ⟨ledger, hexec, hrep⟩ := Booking.ledgerExecutes h.represents horder.executes
  refine ⟨order, ledger, horder.nodup, horder.placed, horder.ended, hexec, ?_⟩
  have hmirrors : Mirrors eventOf view b s :=
    Mirrors.of_run ⟨fun _ _ => rfl, fun i hi => (hfinds i hi).2, .start _⟩ hrun
  intro seats hseats hopened hinFlight hcaptured seat hseat
  have hseatIds := hmirrors.listed.shown seats hseats seat hseat
  have hconverged : s.Converged :=
    (State.Follows.run (.start _) (.start _) hsparing hrun.page_run).2.converged
  obtain ⟨row, hrow⟩ := Option.isSome_iff_exists.mp (hmirrors.rows seat.id hseatIds)
  calc
    seat.status = s.db seat.id := hconverged seats hseats hopened hinFlight hcaptured seat hseat
    _ = statuses b.db seat.id := hmirrors.db seat.id (hfinds seat.id hseatIds).1
    _ = row.status := by rw [statuses, hrow]; rfl
    _ = (ledger seat.id).seatStatus := hrep.seat seat.id row hrow

/-- A run to a state of which `Q` holds, from its first step. -/
theorem exists_of_statement {Q : ReadCommitted.State Booking.backend P Result → State ℕ → Prop}
    {b₁ : ReadCommitted.State Booking.backend P Result} {s₁ : State ℕ}
    {e : ReadCommitted.Event Booking.backend P} {changes : List (ℕ × SeatStatus)}
    (hstep : b.step e = some b₁) (hchanges : Captures eventOf view b.db b₁.db changes)
    (hpage : s.run view (commitAll changes) = some s₁)
    (h : ∃ b' s', LiveRun eventOf view b₁ s₁ es b' s' ∧ Q b' s') :
    ∃ b' s', LiveRun eventOf view b s (.statement e changes :: es) b' s' ∧ Q b' s' := by
  obtain ⟨b', s', hrun, hQ⟩ := h
  exact ⟨b', s', .statement hstep hchanges hpage hrun, hQ⟩

theorem exists_of_page {Q : ReadCommitted.State Booking.backend P Result → State ℕ → Prop}
    {s₁ : State ℕ} {e : Event ℕ} (hcommit : ∀ i status, e ≠ .commit i status)
    (hpage : s.step view e = some s₁)
    (h : ∃ b' s', LiveRun eventOf view b s₁ es b' s' ∧ Q b' s') :
    ∃ b' s', LiveRun eventOf view b s (.page e :: es) b' s' ∧ Q b' s' := by
  obtain ⟨b', s', hrun, hQ⟩ := h
  exact ⟨b', s', .page hcommit hpage hrun, hQ⟩

omit [DecidableEq P] in
/-- A statement that commits nothing. -/
theorem captures_nil {db db' : ReadCommitted.Db Booking.backend} (h : db' = db) :
    Captures eventOf view db db' [] := by
  intro i status
  simp [h]

omit [DecidableEq P] in
/-- A statement that commits one change. -/
theorem captures_singleton {db db' : ReadCommitted.Db Booking.backend} {i : ℕ} (row : SeatRow)
    (hi : eventOf i = view.eventId) (hne : db (.seat i) ≠ db' (.seat i))
    (hrow : db' (.seat i) = some row) (hrest : ∀ j, j ≠ i → db' (.seat j) = db (.seat j)) :
    Captures eventOf view db db' [(i, row.status)] := by
  intro j status
  rw [List.mem_singleton]
  constructor
  · rintro ⟨⟩
    exact ⟨hi, hne, row, hrow, rfl⟩
  · rintro ⟨-, hne', row', hrow', rfl⟩
    obtain rfl : j = i := by
      by_contra hji
      exact hne' (hrest j hji).symm
    rw [hrow] at hrow'
    rw [Option.some.inj hrow']

/-- The page has loaded its one seat. A call reserves it, statement by statement, and the page hears
of it. -/
def oneReservation : List (LiveEvent Unit) :=
  [.page .accept, .page .read, .page .respond] ++
    List.replicate 6 (.statement (.run ()) []) ++
    [.statement (.run ()) [(1, .held)], .page .consume, .page .deliver]

theorem liveRun_oneReservation : ∃ b s, LiveRun (fun _ => 7) oneSeat
    (Booking.start Env.default (fun _ : Unit => .reserveSeat 1 7) Booking.oneSeat 1 0)
    (.start (statuses Booking.oneSeat)) oneReservation b s ∧
    s.page.seats = some [⟨1, .held⟩] := by
  unfold oneReservation
  refine exists_of_page nofun rfl (exists_of_page nofun rfl (exists_of_page nofun rfl ?_))
  iterate 6 refine exists_of_statement rfl (captures_nil rfl) rfl ?_
  refine exists_of_statement rfl (captures_singleton ⟨.held, 1⟩ rfl ?_ rfl ?_) rfl
    (exists_of_page nofun rfl (exists_of_page nofun rfl ⟨_, _, .nil, rfl⟩))
  · exact ne_of_apply_ne (Option.map SeatRow.version) (by decide)
  · intro j hj
    show ReadCommitted.State.view _ _ _ = _
    simp only [ReadCommitted.State.view, ReadCommitted.State.goto, ReadCommitted.State.write]
    simp [hj]
    rfl

/-- The page shows the seat held, as the ledger has it. -/
theorem showsLedger_of_run_oneReservation : ∃ b s, LiveRun (fun _ => 7) oneSeat
    (Booking.start Env.default (fun _ : Unit => .reserveSeat 1 7) Booking.oneSeat 1 0)
    (.start (statuses Booking.oneSeat)) oneReservation b s ∧
    s.page.seats = some [⟨1, .held⟩] ∧
    ∃ (order : List (Unit × ReadCommitted.Outcome Booking.backend Result)) (ledger : Ledger),
      (order.map Prod.fst).Nodup ∧
      ReadCommitted.Placed (statements oneReservation) order ∧
      (∀ p o, (b.procs p).outcome? = some o → o ≠ .error BookingError.infrastructure →
        (p, o) ∈ order) ∧
      Ledger.Executes (fun _ : Unit => .reserveSeat 1 7) (fun _ => .free) order ledger ∧
      ∀ seats, s.page.seats = some seats → s.connection = .opened → s.inFlight = [] →
        s.captured = [] → ∀ seat ∈ seats, seat.status = (ledger seat.id).seatStatus := by
  obtain ⟨b, s, hrun, hseats⟩ := liveRun_oneReservation
  refine ⟨b, s, hrun, hseats, showsLedger_of_run Booking.untouched_oneSeat ?_ hrun ?_⟩
  · intro i hi
    rw [List.mem_singleton.mp hi]
    exact ⟨rfl, rfl⟩
  · repeat refine State.Sparing.cons rfl rfl ?_
    trivial

end Runs

end ScalableBooking.SeatPicker
