import Mathlib.Data.List.Chain
import ScalableBooking.Booking.EventOrder

/-!
# The life of a booking

A booking is pending, and then confirmed and cancelled, or cancelled, or expired. Of that its
committed status shows a prefix in every run of any calls on any database, and no other column but
`updatedAt` ever changes (`lifecycle_of_run`). Each event of it is in the topic at most once, and
only after the transaction that made the transition has committed.

Of two commits that announce the same event of a booking, the earlier one leaves no row for the
later one to be made from.
-/

namespace ScalableBooking.Booking

open ReadCommitted

/-! ### The history of a booking -/

/-- The lives a booking can have. -/
def lives : List (List BookingStatus) :=
  [[.pending, .confirmed, .cancelled], [.pending, .cancelled], [.pending, .expired]]

/-- A list in which each status can come after the one before is a piece of a life, and the
beginning of one if it begins with `pending`. -/
theorem exists_life {l : List BookingStatus} (h : l.IsChain BookingStatus.Next) :
    ∃ life ∈ lives, l <:+: life ∧ (l.head? ∈ [none, some .pending] → l <+: life) := by
  -- nothing follows a status that has no next one
  have hfinal {status : BookingStatus} {l : List BookingStatus}
      (hstatus : ∀ status', ¬status.Next status') (h : (status :: l).IsChain BookingStatus.Next) :
      l = [] := by
    cases h with
    | singleton => rfl
    | cons_cons hnext _ => exact (hstatus _ hnext).elim
  have hcancelled {l : List BookingStatus}
      (h : (BookingStatus.cancelled :: l).IsChain BookingStatus.Next) : l = [] :=
    hfinal (fun _ => id) h
  have hexpired {l : List BookingStatus}
      (h : (BookingStatus.expired :: l).IsChain BookingStatus.Next) : l = [] :=
    hfinal (fun _ => id) h
  have hconfirmed {l : List BookingStatus}
      (h : (BookingStatus.confirmed :: l).IsChain BookingStatus.Next) :
      l = [] ∨ l = [.cancelled] := by
    cases h with
    | singleton => exact .inl rfl
    | cons_cons hnext h =>
      cases hnext
      exact .inr (by rw [hcancelled h])
  cases l with
  | nil => decide
  | cons status l =>
    cases status with
    | pending =>
      cases h with
      | singleton => decide
      | cons_cons hnext h =>
        obtain rfl | rfl | rfl := hnext
        · obtain rfl | rfl := hconfirmed h <;> decide
        · obtain rfl := hcancelled h
          decide
        · obtain rfl := hexpired h
          decide
    -- a booking that was there before the run begins in the middle of a life
    | confirmed => obtain rfl | rfl := hconfirmed h <;> decide
    | cancelled =>
      obtain rfl := hcancelled h
      decide
    | expired =>
      obtain rfl := hexpired h
      decide

/-- The status of the booking `b`, if it is there. -/
def statusOf (db : Db backend) (b : ℕ) : Option BookingStatus :=
  Option.map BookingRow.status (db (.booking b))

/-- What one step does to the status. -/
theorem BookingStep.status {o o' : Option BookingRow} (h : BookingStep o o') :
    o'.map BookingRow.status = o.map BookingRow.status ∨
      o.map BookingRow.status = none ∧ o'.map BookingRow.status = some .pending ∨
      ∃ status status' : BookingStatus, o.map BookingRow.status = some status ∧
        o'.map BookingRow.status = some status' ∧ status.Next status' := by
  cases h with
  | same => exact .inl rfl
  | made row hpending => exact .inr (.inl ⟨rfl, congrArg some hpending⟩)
  | moved row row' hnext hkeep => exact .inr (.inr ⟨_, _, rfl, rfl, hnext⟩)

section History

variable {P : Type} [DecidableEq P] {s s' : State backend P Result} {b : ℕ}

/-- The committed statuses that the booking `b` takes on in a run from `s`. -/
def statusesAfter (b : ℕ) (s : State backend P Result) : List (Event backend P) → List BookingStatus
  | [] => []
  | e :: es => (s.step e).elim [] fun s' =>
      (if statusOf s'.db b = statusOf s.db b then [] else (statusOf s'.db b).toList) ++
        statusesAfter b s' es

/-- The committed statuses of the booking `b` in a run from `s`, each once, oldest first. -/
def statusHistory (b : ℕ) (s : State backend P Result) (es : List (Event backend P)) :
    List BookingStatus :=
  (statusOf s.db b).toList ++ statusesAfter b s es

/-- In its history a booking goes from one status to the next, and begins pending. -/
theorem statusHistory_isChain {calls : P → Call} {log : P → List (Db backend × Db backend)}
    {Q : P → Result → Past backend → Prop}
    (h : Sound (.free backend) (fun p => (calls p).account) Q log s)
    {es : List (Event backend P)} (hrun : s.run es = some s') :
    (statusHistory b s es).IsChain BookingStatus.Next ∧
      (statusOf s.db b = none → (statusHistory b s es).head? ∈ [none, some .pending]) := by
  induction es generalizing s log with
  | nil =>
    cases hstatus : statusOf s.db b <;> simp [statusHistory, statusesAfter, hstatus]
  | cons e es ih =>
    obtain ⟨s₁, hs, hrun⟩ := Option.bind_eq_some_iff.mp hrun
    obtain ⟨hchain, hhead⟩ := ih (h.step hs) hrun
    have hstatus : statusOf s₁.db b = statusOf s.db b ∨
        statusOf s.db b = none ∧ statusOf s₁.db b = some .pending ∨
        ∃ status status' : BookingStatus, statusOf s.db b = some status ∧
          statusOf s₁.db b = some status' ∧ status.Next status' :=
      (bookingStep_of_step h hs b).status
    simp only [statusHistory, statusesAfter, hs, Option.elim_some] at hchain hhead ⊢
    obtain heq | ⟨hnone, hpending⟩ | ⟨status, status', hstatus, hstatus', hnext⟩ := hstatus
    · -- nothing new
      rw [heq] at hchain hhead ⊢
      rw [if_pos rfl, List.nil_append]
      exact ⟨hchain, hhead⟩
    · rw [hpending] at hchain ⊢
      simpa [hnone] using hchain
    · have hne : status' ≠ status := by
        rintro rfl
        cases status' <;> simp [BookingStatus.Next] at hnext
      rw [hstatus'] at hchain ⊢
      rw [hstatus]
      simpa [hne] using ⟨hnext, hchain⟩

end History

/-! ### The topic -/

/-- The machine and the messages it has handed to the producer: those that may still come to the
topic, and those that have. `issued p` says that the `producer.send` at which the process `p` stands
has been made. -/
structure Feed (P : Type) where
  machine : State backend P Result
  issued : P → Bool
  inFlight : List (P × Message)
  sent : List (P × Message)

/-- The machine makes a step, a process makes the call at which it stands, or a message comes to the
topic. That may happen at any time after the call, also when the call has failed, or never. -/
inductive Feed.Event (P : Type) where
  | step (e : ReadCommitted.Event backend P)
  | issue (p : P)
  | append (p : P) (message : Message)

namespace Feed

variable {P : Type} [DecidableEq P]

def start (env : Env) (calls : P → Call) (db : Db backend) (nextId clock : ℕ) : Feed P where
  machine := Booking.start env calls db nextId clock
  issued _ := false
  inFlight := []
  sent := []

/-- An answer ends the call. -/
def answered (f : Feed P) : ReadCommitted.Event backend P → P → Bool
  | .reply p _ => Function.update f.issued p false
  | _ => f.issued

def step (f : Feed P) : Feed.Event P → Option (Feed P)
  | .step e => (f.machine.step e).map fun s => { f with machine := s, issued := f.answered e }
  | .issue p =>
      match f.machine.procs p with
      | .outside (.effect (.send message) _) =>
          if f.issued p then none
          else some
            { f with
              issued := Function.update f.issued p true
              inFlight := f.inFlight ++ [(p, message)] }
      | _ => none
  | .append p message =>
      -- one message for one call
      if (p, message) ∈ f.inFlight then some
        { f with
          inFlight := f.inFlight.erase (p, message)
          sent := f.sent ++ [(p, message)] }
      else none

def run (f : Feed P) : List (Feed.Event P) → Option (Feed P)
  | [] => some f
  | e :: es => (f.step e).bind fun f' => f'.run es

/-- The types of the messages about the booking `b` in the topic `booking.events`. -/
def published (f : Feed P) (b : ℕ) : List EventType :=
  (f.sent.filter fun x => x.2.topic = "booking.events" ∧ x.2.payload.bookingId = b).map
    fun x => x.2.type

/-- What the machine does in a run. -/
def moves : List (Feed.Event P) → List (ReadCommitted.Event backend P)
  | [] => []
  | .step e :: es => e :: moves es
  | .issue _ :: es | .append _ _ :: es => moves es

end Feed

section Announced

variable {db db' : Db backend} {message message' : Message}

/-- What one commit has announced, no later one announces again. -/
theorem Message.Announces.not_again {db₁ db₁' : Db backend} (h : message.Announces db db')
    (h' : message'.Announces db₁ db₁') (hlater : Later db' db₁)
    (hb : message.payload.bookingId = message'.payload.bookingId) :
    message.type ≠ message'.type := by
  obtain ⟨-, -, row, hrow, hstatus⟩ := h
  obtain ⟨-, hbefore, -⟩ := h'
  intro htype
  have hreached : message.type.Reached message.payload.bookingId db' := by
    refine ⟨row, hrow, ?_⟩
    rw [hstatus]
    exact BookingStatus.canBecome_refl _
  rw [← hb, ← htype] at hbefore
  exact hbefore (hreached.mono hlater)

end Announced

/-! ### Runs -/

namespace Feed

variable {P : Type} [DecidableEq P] {calls : P → Call} {f f' : Feed P}
  {log : P → List (Db backend × Db backend)} {b : ℕ}

/-- All messages handed to the producer, with the processes they come from. -/
def handed (f : Feed P) : List (P × Message) := f.inFlight ++ f.sent

/-- What holds in every run: the commits `log` are behind the processes, one of two commits of
different processes comes after the other, and every message handed over announces the one commit
of its process, which is done with it. -/
structure Valid (calls : P → Call) (log : P → List (Db backend × Db backend)) (f : Feed P) :
    Prop where
  sound : Sound (.free backend) (fun p => (calls p).account)
    (fun p r κ => (calls p).IsRequest → (calls p).Accounts r κ) log f.machine
  last : ∀ p, ProcSendsLast (f.machine.procs p)
  made : ∀ p, ∀ c ∈ log p, (calls p).Commits c.1 c.2
  past : ∀ p, ∀ c ∈ log p, Later c.2 f.machine.db
  ordered : ∀ p q, p ≠ q → ∀ c ∈ log p, ∀ c' ∈ log q, Later c.2 c'.1 ∨ Later c'.2 c.1
  announced : ∀ x ∈ f.handed, ∃ db db', log x.1 = [(db, db')] ∧ x.2.Announces db db'
  done : ∀ x ∈ f.handed,
    (∃ next, f.machine.procs x.1 = .outside (.effect (.send x.2) next) ∧ f.issued x.1 = true) ∨
      ∃ r, f.machine.procs x.1 = .outside (.ret r)
  once : (f.handed.map Prod.fst).Nodup

namespace Valid

theorem start {env : Env} {db : Db backend} {nextId clock : ℕ} :
    Valid calls (fun _ => []) (Feed.start env calls db nextId clock) where
  sound := Sound.initial trivial fun p => (calls p).account_safe env
  last p := (calls p).sendsLast env
  made p c hc := by cases hc
  past p c hc := by cases hc
  ordered p q _ c hc := by cases hc
  announced x hx := by cases hx
  done x hx := by cases hx
  once := .nil

/-- A process that has handed over its message commits nothing any more. -/
theorem commits_nil (h : Valid calls log f) {x : P × Message} (hx : x ∈ f.handed)
    (e : ReadCommitted.Event backend P) : f.machine.commits x.1 e = [] := by
  obtain ⟨next, hp, -⟩ | ⟨r, hp⟩ := h.done x hx
  · exact State.commits_of_outside hp
  · exact State.commits_of_outside hp

/-- A process that has handed over its message waits for the answer, and then has returned. -/
theorem done_step (h : Valid calls log f) {e : ReadCommitted.Event backend P}
    {s : State backend P Result} (hs : f.machine.step e = some s) {x : P × Message}
    (hx : x ∈ f.handed) :
    (∃ next, s.procs x.1 = .outside (.effect (.send x.2) next) ∧ f.answered e x.1 = true) ∨
      ∃ r, s.procs x.1 = .outside (.ret r) := by
  by_cases he : e.actor = some x.1
  · obtain ⟨next, hp, -⟩ | ⟨r, hp⟩ := h.done x hx
    · obtain ⟨r, rfl⟩ := State.step_of_effect hp hs he
      obtain ⟨y, next', hp', rfl⟩ := State.step_reply hs
      rw [hp] at hp'
      cases hp'
      -- the call was the last thing to do
      have hlast := h.last x.1
      rw [hp] at hlast
      obtain ⟨a, ha⟩ := hlast.2 x.2 rfl r
      refine .inr ⟨a, ?_⟩
      rw [State.goto_procs_self, ha]
    · exact absurd he (State.actor_ne_of_ret hp hs)
  · have hprocs : s.procs x.1 = f.machine.procs x.1 := (State.step_frame hs).2 x.1 he
    have hissued : f.answered e x.1 = f.issued x.1 := by
      cases e with
      | reply q r =>
        have hne : x.1 ≠ q := fun heq => he (by rw [heq]; rfl)
        exact Function.update_of_ne hne _ _
      | _ => rfl
    have hdone := h.done x hx
    rw [← hprocs, ← hissued] at hdone
    exact hdone

/-- The steps of the machine. -/
theorem machineStep (h : Valid calls log f) {e : ReadCommitted.Event backend P}
    {s : State backend P Result} (hs : f.machine.step e = some s) :
    Valid calls (fun p => log p ++ f.machine.commits p e)
      { f with machine := s, issued := f.answered e } := by
  refine ⟨h.sound.step hs, ?_, ?_, ?_, ?_, ?_, fun x hx => h.done_step hs hx, h.once⟩
  · intro p
    by_cases he : e.actor = some p
    · exact (h.last p).next (State.step_next hs he)
    · rw [show ({ f with machine := s, issued := f.answered e } : Feed P).machine.procs p =
        f.machine.procs p from (State.step_frame hs).2 p he]
      exact h.last p
  · intro p c hc
    obtain hc | hc := List.mem_append.mp hc
    · exact h.made p c hc
    · exact commits_of_step h.sound hs hc
  · intro p c hc
    obtain hc | hc := List.mem_append.mp hc
    · exact discipline.rely_trans _ _ _ (h.past p c hc) (later_of_step h.sound hs)
    · rw [State.commits_of_mem hs hc]
      exact discipline.rely_refl _
  · intro p q hpq c hc c' hc'
    obtain hc | hc := List.mem_append.mp hc
    · obtain hc' | hc' := List.mem_append.mp hc'
      · exact h.ordered p q hpq c hc c' hc'
      · rw [State.commits_of_mem hs hc']
        exact .inl (h.past p c hc)
    · obtain hc' | hc' := List.mem_append.mp hc'
      · rw [State.commits_of_mem hs hc]
        exact .inr (h.past q c' hc')
      · -- one step is a commit of one process
        have hactor := State.actor_of_commits hc
        rw [State.actor_of_commits hc'] at hactor
        exact absurd (Option.some.inj hactor).symm hpq
  · intro x hx
    obtain ⟨db, db', hlog, hannounces⟩ := h.announced x hx
    exact ⟨db, db', by rw [h.commits_nil hx, List.append_nil, hlog], hannounces⟩

/-- A message is handed over. -/
theorem issue (h : Valid calls log f) {p : P} {message : Message}
    {next : Reply → Prog backend Result}
    (hp : f.machine.procs p = .outside (.effect (.send message) next))
    (hfree : f.issued p = false) :
    Valid calls log
      { f with
        issued := Function.update f.issued p true
        inFlight := f.inFlight ++ [(p, message)] } := by
  have hhanded : (f.inFlight ++ [(p, message)] ++ f.sent).Perm ((p, message) :: f.handed) := by
    rw [List.append_assoc]
    exact List.perm_middle
  -- the process has handed over nothing before
  have hnew : ∀ x ∈ f.handed, x.1 ≠ p := by
    rintro x hx rfl
    obtain ⟨next', -, hissued⟩ | ⟨r, hret⟩ := h.done x hx
    · rw [hfree] at hissued
      cases hissued
    · rw [hp] at hret
      cases hret
  refine ⟨h.sound, h.last, h.made, h.past, h.ordered, ?_, ?_, ?_⟩
  · intro x hx
    obtain rfl | hx := List.mem_cons.mp (hhanded.mem_iff.mp hx)
    · obtain ⟨κ, -, -, hcommits, hact⟩ := h.sound.act hp
      obtain ⟨db, db', hκ, hannounces⟩ := hact message rfl
      exact ⟨db, db', hcommits.symm.trans hκ, hannounces⟩
    · exact h.announced x hx
  · intro x hx
    obtain rfl | hx := List.mem_cons.mp (hhanded.mem_iff.mp hx)
    · exact .inl ⟨next, hp, Function.update_self _ _ _⟩
    · obtain ⟨next', hp', hissued⟩ | hret := h.done x hx
      · exact .inl ⟨next', hp', (Function.update_of_ne (hnew x hx) _ _).trans hissued⟩
      · exact .inr hret
  · refine ((hhanded.map Prod.fst).nodup_iff).mpr ?_
    rw [List.map_cons, List.nodup_cons]
    refine ⟨?_, h.once⟩
    intro hmem
    obtain ⟨x, hx, heq⟩ := List.mem_map.mp hmem
    exact hnew x hx heq

/-- A message comes to the topic. -/
theorem append (h : Valid calls log f) {x : P × Message} (hx : x ∈ f.inFlight) :
    Valid calls log { f with inFlight := f.inFlight.erase x, sent := f.sent ++ [x] } := by
  have hhanded : (f.inFlight.erase x ++ (f.sent ++ [x])).Perm f.handed := by
    refine List.Perm.trans ?_ ((List.perm_cons_erase hx).symm.append_right f.sent)
    rw [← List.append_assoc]
    exact List.perm_append_singleton _ _
  exact ⟨h.sound, h.last, h.made, h.past, h.ordered,
    fun y hy => h.announced y (hhanded.mem_iff.mp hy),
    fun y hy => h.done y (hhanded.mem_iff.mp hy), ((hhanded.map Prod.fst).nodup_iff).mpr h.once⟩

end Valid

/-- What a step is to the machine and its commits. -/
theorem Valid.step (h : Valid calls log f) {e : Feed.Event P} (hs : f.step e = some f') :
    (∃ e', e = .step e' ∧ f.machine.step e' = some f'.machine ∧
        Valid calls (fun p => log p ++ f.machine.commits p e') f') ∨
      (∀ e', e ≠ .step e') ∧ f'.machine = f.machine ∧ Valid calls log f' := by
  cases e with
  | step e =>
    obtain ⟨s, hstep, rfl⟩ := Option.map_eq_some_iff.mp hs
    exact .inl ⟨e, rfl, hstep, h.machineStep hstep⟩
  | issue p =>
    refine .inr ⟨by rintro e' ⟨⟩, ?_⟩
    simp only [Feed.step] at hs
    split at hs
    · rename_i message next hp
      obtain ⟨hfree, hs⟩ := Option.ite_none_left_eq_some.mp hs
      cases hs
      exact ⟨rfl, h.issue hp (by simpa using hfree)⟩
    · cases hs
  | append p message =>
    refine .inr ⟨by rintro e' ⟨⟩, ?_⟩
    obtain ⟨hmem, hs⟩ := Option.ite_none_right_eq_some.mp hs
    cases hs
    exact ⟨rfl, h.append hmem⟩

/-- A run of the feed is a run of the machine, and keeps what holds. -/
theorem Valid.run (h : Valid calls log f) {es : List (Feed.Event P)}
    (hrun : f.run es = some f') :
    f.machine.run (moves es) = some f'.machine ∧
      Valid calls (fun p => log p ++ f.machine.history p (moves es)) f' := by
  induction es generalizing f log with
  | nil =>
    cases hrun
    refine ⟨rfl, ?_⟩
    simpa [moves, State.history] using h
  | cons e es ih =>
    obtain ⟨f₁, hs, hrest⟩ := Option.bind_eq_some_iff.mp hrun
    -- only the steps of the machine add to the histories
    obtain ⟨e', rfl, hstep, hvalid⟩ | ⟨hne, hmachine, hvalid⟩ := h.step hs
    · obtain ⟨hmoves, hvalid'⟩ := ih hvalid hrest
      refine ⟨?_, ?_⟩
      · simp only [moves, State.run, hstep, Option.bind_some]
        exact hmoves
      · simpa [moves, State.history, hstep] using hvalid'
    · have hmoves : moves (e :: es) = moves es := by
        cases e with
        | step e => exact absurd rfl (hne e)
        | _ => rfl
      rw [hmoves, ← hmachine]
      exact ih hvalid hrest

/-- Of two messages about one booking one has been committed before the other, so they are of two
types. -/
theorem Valid.pairwise_type (h : Valid calls log f) :
    f.sent.Pairwise fun x y => x.2.payload.bookingId = y.2.payload.bookingId →
      x.2.type ≠ y.2.type := by
  have honce : f.sent.Pairwise fun x y => x.1 ≠ y.1 := by
    have hnodup := h.once
    rw [handed, List.map_append] at hnodup
    exact List.pairwise_map.mp (List.nodup_append.mp hnodup).2.1
  refine honce.imp_of_mem ?_
  intro x y hx hy hne hb
  obtain ⟨d, d', hlog, hannounces⟩ := h.announced x (List.mem_append_right _ hx)
  obtain ⟨c, c', hlog', hannounces'⟩ := h.announced y (List.mem_append_right _ hy)
  obtain hlater | hlater :=
    h.ordered x.1 y.1 hne (d, d') (by simp [hlog]) (c, c') (by simp [hlog'])
  · exact hannounces.not_again hannounces' hlater hb
  · exact (hannounces'.not_again hannounces hlater hb.symm).symm

/-- From one state of a run to a later one, bookings only go forwards. -/
theorem Valid.later (h : Valid calls log f) {es : List (Feed.Event P)} (hrun : f.run es = some f') :
    Later f.machine.db f'.machine.db := by
  induction es generalizing f log with
  | nil =>
    cases hrun
    exact discipline.rely_refl _
  | cons e es ih =>
    obtain ⟨f₁, hs, hrest⟩ := Option.bind_eq_some_iff.mp hrun
    obtain ⟨e', rfl, hstep, hvalid⟩ | ⟨-, hmachine, hvalid⟩ := h.step hs
    · exact discipline.rely_trans _ _ _ (later_of_step h.sound hstep) (ih hvalid hrest)
    · rw [← hmachine]
      exact ih hvalid hrest

theorem run_append {es es' : List (Feed.Event P)} :
    f.run (es ++ es') = (f.run es).bind fun f' => f'.run es' := by
  induction es generalizing f with
  | nil => rfl
  | cons e es ih => simp only [List.cons_append, run, Option.bind_assoc, ih]

end Feed

section Runs

variable {P : Type} [DecidableEq P] {env : Env} {calls : P → Call} {db : Db backend}
  {nextId clock : ℕ} {f : Feed P}

/-- In every run of any calls on any database, the committed status of a booking shows a piece of a
life, and the beginning of one if the run has made the booking. From one committed state to a later
one no booking is lost, taken back or given other data. No type of event of a booking is in the
topic twice, and a message there comes from a process whose one commit has made the transition. -/
theorem lifecycle_of_run {es : List (Feed.Event P)}
    (hrun : (Feed.start env calls db nextId clock).run es = some f) (b : ℕ) :
    (∃ life ∈ lives,
      statusHistory b (start env calls db nextId clock) (Feed.moves es) <:+: life ∧
        (db (.booking b) = none →
          statusHistory b (start env calls db nextId clock) (Feed.moves es) <+: life)) ∧
    (∀ (es₁ es₂ : List (Feed.Event P)) (f₁ : Feed P), es = es₁ ++ es₂ →
      (Feed.start env calls db nextId clock).run es₁ = some f₁ →
        Later f₁.machine.db f.machine.db) ∧
    (f.published b).Nodup ∧
    ∀ x ∈ f.sent, x.2.payload.bookingId = b → ∃ d d',
      (start env calls db nextId clock).history x.1 (Feed.moves es) = [(d, d')] ∧
        x.2.type.Makes b d d' := by
  have hstart : Feed.Valid calls (fun _ => []) (Feed.start env calls db nextId clock) := .start
  obtain ⟨hmoves, hvalid⟩ := hstart.run hrun
  refine ⟨?_, ?_, ?_, ?_⟩
  · obtain ⟨hchain, hhead⟩ := statusHistory_isChain (b := b) hstart.sound hmoves
    obtain ⟨life, hlife, hpiece, hbegin⟩ := exists_life hchain
    refine ⟨life, hlife, hpiece, ?_⟩
    intro hnone
    -- the number was free at the start, so the life is seen from its beginning
    exact hbegin (hhead (congrArg (Option.map BookingRow.status) hnone))
  · rintro es₁ es₂ f₁ rfl hrun₁
    rw [Feed.run_append, hrun₁] at hrun
    exact (hstart.run hrun₁).2.later hrun
  · rw [Feed.published, List.Nodup, List.pairwise_map, List.pairwise_filter]
    refine hvalid.pairwise_type.imp ?_
    -- two messages of one type about one booking are one message
    intro x y hne hx hy
    simp only [decide_eq_true_eq] at hx hy
    exact hne (hx.2.trans hy.2.symm)
  · rintro x hx rfl
    obtain ⟨d, d', hlog, hannounces⟩ := hvalid.announced x (List.mem_append_right _ hx)
    have hmade := hvalid.made x.1 (d, d') (by rw [hlog]; exact List.mem_singleton.mpr rfl)
    rw [List.nil_append] at hlog
    exact ⟨d, d', hlog, hannounces.makes hmade⟩

end Runs

/-- The message of the reservation in `answeredLate`. -/
def createdMessage : Message where
  topic := "booking.events"
  key := "1"
  type := .created
  payload := { bookingId := 1, seatId := 1, userId := 7, holdExpiresAt := some 300000 }
  timestamp := 0

/-- The message of the confirmation. -/
def confirmedMessage : Message :=
  { createdMessage with
    type := .confirmed
    payload := { createdMessage.payload with holdExpiresAt := none } }

/-- The producer has given up on the message of the reservation, which comes to the topic after that
of the confirmation. -/
def answeredLate : List (Feed.Event Bool) :=
  [.step (.run true), .step (.run true), .step (.run true), .step (.run true), .step (.run true),
    .step (.run true), .step (.run true), .step (.run true), .step (.reply true .resolved),
    .step (.run true), .issue true, .step (.reply true .rejected),
    .step (.run false), .step (.run false), .step (.run false), .step (.run false),
    .step (.run false), .step (.run false), .step (.run false), .step (.run false),
    .step (.run false), .issue false, .append false confirmedMessage,
    .append true createdMessage, .step (.reply false .resolved)]

theorem lifecycle_of_run_answeredLate :
    ∃ f, (Feed.start Env.default reserveAndConfirm oneSeat 1 0).run answeredLate = some f ∧
      f.published 1 = [.confirmed, .created] ∧
      statusHistory 1 (start Env.default reserveAndConfirm oneSeat 1 0) (Feed.moves answeredLate) =
        [.pending, .confirmed] ∧
      (f.published 1).Nodup ∧
      ∀ x ∈ f.sent, x.2.payload.bookingId = 1 → ∃ d d',
        (start Env.default reserveAndConfirm oneSeat 1 0).history x.1 (Feed.moves answeredLate) =
          [(d, d')] ∧ x.2.type.Makes 1 d d' := by
  have hrun : (Feed.start Env.default reserveAndConfirm oneSeat 1 0).run answeredLate =
    some _ := rfl
  obtain ⟨-, -, hnodup, hsent⟩ := lifecycle_of_run hrun 1
  exact ⟨_, hrun, rfl, rfl, hnodup, hsent⟩

end ScalableBooking.Booking
