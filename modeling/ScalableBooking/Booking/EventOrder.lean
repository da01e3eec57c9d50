import ScalableBooking.Booking.BookingStep
import ScalableBooking.Booking.HoldExpiry

/-!
# The order of booking events

Each request commits its transition first and publishes the event of it later, so two requests
about one booking can commit in one order and publish in the other (`overtaken_messages`). What
holds in every run is that a message is sent after its transition has committed, and no type
twice under one key. The messages of a booking are in lifecycle order in every run in which no
transition of that booking commits while a message about it is still owed (`published_of_run`).

A process owes a message from the commit of its transition until it has sent it. That is read
off the rest of its program (`Owes`).
-/

namespace ScalableBooking.Booking

open ReadCommitted

/-- The place of an event in the life of a booking. -/
def EventType.rank : EventType → ℕ
  | created => 0
  | confirmed => 1
  | cancelled => 2

theorem EventType.rank_injective : Function.Injective EventType.rank := by
  intro type type' h
  cases type <;> cases type' <;> simp [rank] at h ⊢

/-! ### Reaching a state -/

section Reached

variable {type type' : EventType} {b : ℕ} {db db' : Db backend}

theorem EventType.Reached.mono (h : type.Reached b db) (hlater : Later db db') :
    type.Reached b db' := by
  obtain ⟨row, hrow, hstatus⟩ := h
  obtain ⟨row', hrow', hbecomes⟩ := hlater.exists_row hrow
  exact ⟨row', hrow', hstatus.trans hbecomes.status⟩

/-- A booking that has just come to the state of an event has come no further. -/
theorem EventType.Reached.rank_le (h : type'.Reached b db)
    (hnow : ∃ row : BookingRow, db (.booking b) = some row ∧ row.status = type.status) :
    type'.rank ≤ type.rank := by
  obtain ⟨row, hrow, hstatus⟩ := h
  obtain ⟨row', hrow', hstatus'⟩ := hnow
  rw [hrow] at hrow'
  cases hrow'
  rw [hstatus'] at hstatus
  cases type <;> cases type' <;>
    simp [EventType.status, BookingStatus.CanBecome, EventType.rank] at hstatus ⊢

end Reached

/-! ### Owing a message -/

/-- The program can still come, from the time `t` on, to send a message of this type about the
booking `b`, with no transaction before. -/
def Owes {α : Type} (b : ℕ) (type : EventType) : Prog backend α → ℕ → Prop
  | .ret _, _ | .fail _, _ | .transaction _ _, _ => False
  | .now next, t => ∃ t', t ≤ t' ∧ Owes b type (next t') t'
  | .select k cond next, t => ∃ db : Db backend, Owes b type (next ((db k).filter cond)) t
  | .effect x next, t =>
      (∃ message, x = .send message ∧ message.payload.bookingId = b ∧ message.type = type) ∨
        ∃ r, Owes b type (next r) t

/-- The program returns when it has sent a message. -/
def SendsLast {α : Type} : Prog backend α → Prop
  | .ret _ | .fail _ => True
  | .now next => ∀ t, SendsLast (next t)
  | .select _ _ next => ∀ row, SendsLast (next row)
  | .effect x next => (∀ r, SendsLast (next r)) ∧
      ∀ message, x = .send message → ∀ r, ∃ a, next r = .ret a
  | .transaction _ next => ∀ b, SendsLast (next b)

section Programs

variable {α : Type} {b : ℕ} {type : EventType} {t t' : ℕ}

/-- What is owed later was owed before. -/
theorem Owes.of_le {prog : Prog backend α} (h : Owes b type prog t') (ht : t ≤ t') :
    Owes b type prog t := by
  induction prog with
  | ret a => exact h
  | fail e => exact h
  | now next ih =>
    obtain ⟨t'', ht'', hnext⟩ := h
    exact ⟨t'', Nat.le_trans ht ht'', hnext⟩
  | select k cond next ih =>
    obtain ⟨db, hnext⟩ := h
    exact ⟨db, ih _ hnext⟩
  | effect x next ih =>
    obtain hsend | ⟨r, hnext⟩ := h
    · exact .inl hsend
    · exact .inr ⟨r, ih r hnext⟩
  | transaction body next ih => exact h

/-- The one commit behind a process that owes a message is the one it announces. -/
theorem Owes.announces {call : Call} {Q : α → Past backend → Prop} {prog : Prog backend α}
    {κ : Past backend} (h : Owes b type prog t)
    (hsafe : prog.Safe (.free backend) call.account Q κ) (ht : κ.time ≤ t) :
    ∃ (message : Message) (db db' : Db backend), message.payload.bookingId = b ∧
      message.type = type ∧ κ.commits = [(db, db')] ∧ message.Announces db db' := by
  induction prog generalizing κ t with
  | ret a => exact h.elim
  | fail e => exact h.elim
  | now next ih =>
    obtain ⟨t', ht', hnext⟩ := h
    have := ih t' hnext (hsafe t' (Nat.le_trans ht ht')) (Nat.le_refl t')
    exact this
  | select k cond next ih =>
    obtain ⟨db, hnext⟩ := h
    have := ih _ hnext (hsafe.2 db trivial trivial) ht
    exact this
  | effect x next ih =>
    obtain ⟨hact, hnext⟩ := hsafe κ.seen trivial trivial
    -- it is this effect that is owed, or one after it
    obtain ⟨message, rfl, rfl, rfl⟩ | ⟨r, howes⟩ := h
    · obtain ⟨db, db', hcommits, hannounces⟩ := hact message rfl
      exact ⟨message, db, db', rfl, rfl, hcommits, hannounces⟩
    · exact ih r howes (hnext r) ht
  | transaction body next ih => exact h.elim

/-- No call owes a message before its transaction. -/
theorem Call.not_owes (env : Env) (call : Call) (b : ℕ) (type : EventType) (t : ℕ) :
    ¬Owes b type (call.code env) t := by
  cases call with
  | reserveSeat seatId userId =>
    rintro ⟨db, h⟩
    cases hrow : (db (.seat seatId)).filter fun _ => true <;> simp [hrow, Prog.bind, Owes] at h
  | confirmBooking c userId =>
    rintro ⟨db, h⟩
    cases hrow : (db (.booking c)).filter fun row => decide (row.userId = userId) <;>
      simp [hrow, Prog.bind, Owes] at h
  | cancelBooking c userId =>
    rintro ⟨db, h⟩
    cases hrow : (db (.booking c)).filter fun row => decide (row.userId = userId) <;>
      simp [hrow, Prog.bind, Owes] at h
  | expireHold c => exact id

/-- With the event a call ends. -/
theorem publishBookingEvent_sendsLast (type : EventType) (payload : Payload) (r : Result) :
    SendsLast ((publishBookingEvent type payload).bind fun _ => .ret r) := by
  simp [publishBookingEvent, Prog.bind, SendsLast]

/-- Every call ends with its event. -/
theorem Call.sendsLast (env : Env) (call : Call) : SendsLast (call.code env) := by
  cases call with
  | reserveSeat seatId userId =>
    intro row
    cases row with
    | none => trivial
    | some existing =>
      intro now result t
      refine ⟨fun _ => publishBookingEvent_sendsLast _ _ _, ?_⟩
      intro message heq
      cases heq
  | confirmBooking c userId =>
    intro row
    cases row with
    | none => trivial
    | some existing =>
      intro confirmed
      cases confirmed with
      | none => exact fun _ => trivial
      | some row => exact publishBookingEvent_sendsLast _ _ _
  | cancelBooking c userId =>
    intro row
    cases row with
    | none => trivial
    | some existing =>
      intro cancelled
      cases cancelled with
      | none => exact fun _ => trivial
      | some row =>
        -- the removal of the job sends nothing, and the event is the last effect after it
        refine ⟨?_, fun message heq => by cases heq⟩
        intro r
        cases r with
        | resolved =>
          exact ⟨fun _ => publishBookingEvent_sendsLast _ _ _, fun message heq => by cases heq⟩
        | absent => exact publishBookingEvent_sendsLast _ _ _
        | rejected => exact publishBookingEvent_sendsLast _ _ _
  | expireHold c => exact fun _ => trivial

end Programs

/-! ### The invariant -/

/-- A process returns when it has sent a message. -/
def ProcSendsLast : Proc backend Result → Prop
  | .outside prog => SendsLast prog
  | .inside _ _ _ next => ∀ b, SendsLast (next b)

theorem ProcSendsLast.next {t : ℕ} {proc proc' : Proc backend Result} (h : ProcSendsLast proc)
    (hnext : proc.Next t proc') : ProcSendsLast proc' := by
  cases hnext with
  | now next => exact h t
  | select k cond next db => exact h _
  | effect x next r => exact h.1 r
  | begin body next => exact h
  | statement start scanned scanned' body body' next => exact h
  | commit start scanned b next => exact h b
  | fail proc e => trivial

section Machine

variable {P : Type} [DecidableEq P] {s s' : State backend P Result} {p q : P} {b : ℕ}
  {type type' : EventType}

/-- The process `p` owes a message in the state `s`. -/
def OwesIn (s : State backend P Result) (p : P) (b : ℕ) (type : EventType) : Prop :=
  ∃ prog, s.procs p = .outside prog ∧ Owes b type prog s.clock

omit [DecidableEq P] in
/-- What a process is about to send, it owes. -/
theorem OwesIn.of_send {message : Message} {next : Reply → Prog backend Result}
    (hp : s.procs p = .outside (.effect (.send message) next)) :
    OwesIn s p message.payload.bookingId message.type :=
  ⟨_, hp, .inl ⟨message, rfl, rfl, rfl⟩⟩

/-- A process that owes a message after a step has owed it before, or has just committed. -/
theorem OwesIn.step (h : OwesIn s' p b type) {e : Event backend P} (hs : s.step e = some s') :
    OwesIn s p b type ∨ s.commits p e = [(s.db, s'.db)] := by
  obtain ⟨prog, hprog, howes⟩ := h
  obtain ⟨hclock, hprocs⟩ := State.step_frame hs
  replace howes := howes.of_le hclock
  by_cases he : e.actor = some p
  · have hnext := State.step_next hs he
    rw [hprog] at hnext
    generalize hp : s.procs p = proc at hnext
    cases hnext with
    | now next => exact .inl ⟨_, hp, s.clock, Nat.le_refl _, howes⟩
    | select k cond next db => exact .inl ⟨_, hp, db, howes⟩
    | effect x next r => exact .inl ⟨_, hp, .inr ⟨r, howes⟩⟩
    | fail proc e => exact howes.elim
    | commit start scanned a next =>
      refine .inr ?_
      cases e with
      | tick d => cases he
      | run q =>
        cases he
        simp only [State.step, hp, State.stepTx, Option.some.injEq] at hs
        subst hs
        simp [State.commits, hp, State.goto, State.commit]
      | reply q r =>
        cases he
        simp [State.step, hp] at hs
      | fault q =>
        cases he
        simp only [State.step, hp, Option.some.injEq] at hs
        subst hs
        -- a broken connection leaves nothing to send
        rw [State.goto_procs_self, Proc.outside.injEq] at hprog
        rw [← hprog] at howes
        exact howes.elim
  · rw [hprocs p he] at hprog
    exact .inl ⟨prog, hprog, howes⟩

/-- The commit behind a process that owes a message has taken the booking to where it says. -/
theorem OwesIn.commit {calls : P → Call} {Q : P → Result → Past backend → Prop}
    {log : P → List (Db backend × Db backend)} (h : OwesIn s p b type)
    (haccounts : Sound (.free backend) (fun p => (calls p).account) Q log s) :
    ∃ db db' : Db backend, log p = [(db, db')] ∧ ¬type.Reached b db ∧
      ∃ row : BookingRow, db' (.booking b) = some row ∧ row.status = type.status := by
  obtain ⟨prog, hprog, howes⟩ := h
  obtain ⟨κ, -, htime, hcommits, hsafe⟩ := haccounts.safe p
  rw [hprog] at hsafe
  obtain ⟨message, db, db', rfl, rfl, hκ, -, hannounces⟩ := howes.announces hsafe.2 htime
  exact ⟨db, db', hcommits.symm.trans hκ, hannounces⟩

/-- What holds of the messages `sent` in the state `s` of the machine, in any run: the commits
`log` are behind the processes, one of them has made the transition that is sent of a booking, and
nobody owes a message of the kind that is sent or that somebody else owes. -/
structure Announced (db₀ : Db backend) (calls : P → Call)
    (log : P → List (Db backend × Db backend)) (s : State backend P Result)
    (sent : List Message) : Prop where
  sound : Sound discipline (fun p => (calls p).contract)
    (fun p r κ => (calls p).Returns db₀ r κ.seen) log s
  accounts : Sound (.free backend) (fun p => (calls p).account)
    (fun p r κ => (calls p).IsRequest → (calls p).Accounts r κ) log s
  last : ∀ p, ProcSendsLast (s.procs p)
  past : ∀ p, ∀ c ∈ log p, Later c.2 s.db
  commits : ∀ p, ∀ c ∈ log p, (calls p).Commits c.1 c.2
  made : ∀ message ∈ sent, ∃ p, ∃ c ∈ log p,
    message.type.Makes message.payload.bookingId c.1 c.2
  reached : ∀ message ∈ sent, message.type.Reached message.payload.bookingId s.db ∧
    message.key = toString message.payload.bookingId
  unsent : ∀ p b type, OwesIn s p b type →
    ∀ message ∈ sent, message.payload.bookingId = b → message.type ≠ type
  sole : ∀ p q b type, OwesIn s p b type → OwesIn s q b type → p = q
  once : sent.Pairwise fun message message' =>
    message.payload.bookingId = message'.payload.bookingId → message.type ≠ message'.type

namespace Announced

variable {db₀ : Db backend} {calls : P → Call} {log : P → List (Db backend × Db backend)}
  {sent : List Message}

theorem start {env : Env} {nextId clock : ℕ} (h : Untouched db₀) :
    Announced db₀ calls (fun _ => []) (Booking.start env calls db₀ nextId clock) [] where
  sound := start_sound h
  accounts := Sound.initial trivial fun p => (calls p).account_safe env
  last p := (calls p).sendsLast env
  past p c hc := by cases hc
  commits p c hc := by cases hc
  made message hmessage := by cases hmessage
  reached message hmessage := by cases hmessage
  unsent p b type _ message hmessage := by cases hmessage
  sole p q b type h _ := by
    obtain ⟨prog, hprog, howes⟩ := h
    cases hprog
    exact ((calls p).not_owes env b type _ howes).elim
  once := .nil

/-- A message is owed for a booking that has come as far as it says. -/
theorem reached_of_owes (h : Announced db₀ calls log s sent) (howes : OwesIn s p b type) :
    type.Reached b s.db := by
  obtain ⟨db, db', hlog, -, row, hrow, hstatus⟩ := howes.commit h.accounts
  have hlater := h.past p (db, db') (by simp [hlog])
  refine EventType.Reached.mono ⟨row, hrow, ?_⟩ hlater
  rw [hstatus]
  exact BookingStatus.canBecome_refl _

/-- A process that owes a message after a step has owed it before, or the step is its commit and
has just taken the booking to where the message says. -/
theorem owes_step (h : Announced db₀ calls log s sent) {e : Event backend P}
    (hs : s.step e = some s') (howes : OwesIn s' p b type) :
    OwesIn s p b type ∨ e.actor = some p ∧ ¬type.Reached b s.db ∧
      ∃ row : BookingRow, s'.db (.booking b) = some row ∧ row.status = type.status := by
  obtain hold | hcommits := howes.step hs
  · exact .inl hold
  · refine .inr ?_
    obtain ⟨db, db', hlog, hbefore, hafter⟩ := howes.commit (h.accounts.step hs)
    -- the one commit behind the process is this one
    simp only [hcommits, List.append_eq_singleton_iff] at hlog
    obtain ⟨-, hlog⟩ | ⟨-, hlog⟩ := hlog
    · cases hlog
      refine ⟨?_, hbefore, hafter⟩
      by_contra hactor
      rw [State.commits_of_ne hactor] at hcommits
      cases hcommits
    · cases hlog

/-- The steps of the machine, as long as nothing is sent. -/
theorem step (h : Announced db₀ calls log s sent) {e : Event backend P}
    (hs : s.step e = some s') :
    Announced db₀ calls (fun p => log p ++ s.commits p e) s' sent := by
  have hlater : Later s.db s'.db := h.sound.rely_step hs
  refine ⟨h.sound.step hs, h.accounts.step hs, ?_, ?_, ?_, ?_, ?_, ?_, ?_, h.once⟩
  · intro p
    by_cases he : e.actor = some p
    · exact (h.last p).next (State.step_next hs he)
    · rw [(State.step_frame hs).2 p he]
      exact h.last p
  · intro p c hc
    obtain hc | hc := List.mem_append.mp hc
    · exact discipline.rely_trans _ _ _ (h.past p c hc) hlater
    · rw [State.commits_of_mem hs hc]
      exact discipline.rely_refl _
  · intro p c hc
    obtain hc | hc := List.mem_append.mp hc
    · exact h.commits p c hc
    · exact commits_of_step h.accounts hs hc
  · intro message hmessage
    obtain ⟨p, c, hc, hmakes⟩ := h.made message hmessage
    exact ⟨p, c, List.mem_append_left _ hc, hmakes⟩
  · intro message hmessage
    obtain ⟨hreached, hkey⟩ := h.reached message hmessage
    exact ⟨hreached.mono hlater, hkey⟩
  · intro p b type howes message hmessage hb htype
    obtain hold | ⟨-, hbefore, -⟩ := h.owes_step hs howes
    · exact h.unsent p b type hold message hmessage hb htype
    · -- what is sent had been reached before the step
      refine hbefore ?_
      rw [← hb, ← htype]
      exact (h.reached message hmessage).1
  · intro p q b type hp hq
    obtain hp' | ⟨hactor, hbefore, -⟩ := h.owes_step hs hp
    · obtain hq' | ⟨-, hbefore, -⟩ := h.owes_step hs hq
      · exact h.sole p q b type hp' hq'
      · exact absurd (h.reached_of_owes hp') hbefore
    · obtain hq' | ⟨hactor', -, -⟩ := h.owes_step hs hq
      · exact absurd (h.reached_of_owes hq') hbefore
      · rw [hactor] at hactor'
        exact Option.some.inj hactor'

/-- The step in which a message is sent. -/
theorem send (h : Announced db₀ calls log s sent) {message : Message} {r : Reply}
    {next : Reply → Prog backend Result}
    (hp : s.procs p = .outside (.effect (.send message) next))
    (hs : s.step (.reply p r) = some s') :
    Announced db₀ calls log s' (sent ++ [message]) := by
  have howes := OwesIn.of_send hp
  obtain ⟨x, next', hp', rfl⟩ := State.step_reply hs
  rw [hp] at hp'
  cases hp'
  have hstep : Announced db₀ calls log (s.goto p (.outside (next r))) sent := by
    simpa [State.commits] using h.step hs
  obtain ⟨κ, hseen, -, -, hreached⟩ := h.sound.act hp
  obtain ⟨κ', -, -, hcommits, hannounces⟩ := h.accounts.act hp
  obtain ⟨db, db', hκ, hmessage⟩ := hannounces message rfl
  have hkey := hmessage.1
  have hlog : (db, db') ∈ log p := by
    rw [← hcommits, hκ]
    exact List.mem_singleton.mpr rfl
  refine { hstep with made := ?_, reached := ?_, unsent := ?_, once := ?_ }
  · intro message' hmessage'
    obtain hmessage' | hmessage' := List.mem_append.mp hmessage'
    · exact h.made message' hmessage'
    · -- the one commit behind `p` is the one announced
      rw [List.mem_singleton.mp hmessage']
      exact ⟨p, _, hlog, hmessage.makes (h.commits p _ hlog)⟩
  · intro message' hmessage'
    obtain hmessage' | hmessage' := List.mem_append.mp hmessage'
    · exact hstep.reached message' hmessage'
    · rw [List.mem_singleton.mp hmessage']
      exact ⟨hseen ▸ hreached, hkey⟩
  · intro q b type hq message' hmessage' hb htype
    obtain hmessage' | hmessage' := List.mem_append.mp hmessage'
    · exact hstep.unsent q b type hq message' hmessage' hb htype
    · rw [List.mem_singleton.mp hmessage'] at hb htype
      subst hb htype
      -- only `p` owed it, and `p` has nothing left to do
      obtain hold | ⟨hactor, hbefore, -⟩ := h.owes_step hs hq
      · obtain rfl := h.sole q p _ _ hold howes
        obtain ⟨prog, hprog, hq⟩ := hq
        have hlast := h.last q
        rw [hp] at hlast
        obtain ⟨a, ha⟩ := hlast.2 message rfl r
        rw [State.goto_procs_self, Proc.outside.injEq] at hprog
        rw [← hprog, ha] at hq
        exact hq
      · exact hbefore (h.reached_of_owes howes)
  · refine List.pairwise_append.mpr ⟨h.once, List.pairwise_singleton _ _, ?_⟩
    intro message' hmessage' message'' hmessage''
    rw [List.mem_singleton.mp hmessage'']
    exact h.unsent p _ _ howes message' hmessage'

end Announced

/-! ### Order -/

/-- A step from `s` to `s'` takes the booking `b` further while a message about it is owed. -/
def Overtaken (s s' : State backend P Result) (b : ℕ) : Prop :=
  (∃ p type, OwesIn s p b type) ∧ ∃ type : EventType, ¬type.Reached b s.db ∧ type.Reached b s'.db

/-- The messages about `b` are in order in the state `s`, and what is owed comes after them. -/
structure InOrder (s : State backend P Result) (sent : List Message) (b : ℕ) : Prop where
  ahead : ∀ p type, OwesIn s p b type → ∀ type' : EventType, type'.Reached b s.db →
    type'.rank ≤ type.rank
  order : sent.Pairwise fun message message' => message.payload.bookingId = b →
    message'.payload.bookingId = b → message.type.rank ≤ message'.type.rank

namespace InOrder

variable {db₀ : Db backend} {calls : P → Call} {log : P → List (Db backend × Db backend)}
  {sent : List Message}

omit [DecidableEq P] in
theorem start {env : Env} {nextId clock : ℕ} :
    InOrder (Booking.start env calls db₀ nextId clock) [] b where
  ahead p type h := by
    obtain ⟨prog, hprog, howes⟩ := h
    cases hprog
    exact ((calls p).not_owes env b type _ howes).elim
  order := .nil

theorem step (h : InOrder s sent b) (hann : Announced db₀ calls log s sent)
    {e : Event backend P} (hs : s.step e = some s') (hov : ¬Overtaken s s' b) :
    InOrder s' sent b := by
  refine ⟨?_, h.order⟩
  intro p type howes type' hreached
  obtain hold | ⟨-, -, hafter⟩ := hann.owes_step hs howes
  · refine h.ahead p type hold type' ?_
    by_contra hbefore
    exact hov ⟨⟨p, type, hold⟩, type', hbefore, hreached⟩
  · exact hreached.rank_le hafter

theorem send (h : InOrder s sent b) (hann : Announced db₀ calls log s sent) {message : Message}
    {next : Reply → Prog backend Result}
    (hp : s.procs p = .outside (.effect (.send message) next)) (hs' : InOrder s' sent b) :
    InOrder s' (sent ++ [message]) b := by
  refine ⟨hs'.ahead, ?_⟩
  refine List.pairwise_append.mpr ⟨h.order, List.pairwise_singleton _ _, ?_⟩
  intro message' hmessage' message'' hmessage'' hb' hb
  rw [List.mem_singleton.mp hmessage''] at hb ⊢
  refine h.ahead p message.type ?_ message'.type ?_
  · rw [← hb]
    exact OwesIn.of_send hp
  · rw [← hb']
    exact (hann.reached message' hmessage').1

end InOrder

end Machine

/-! ### Runs -/

section World

variable {P : Type} [DecidableEq P] {calls : P → Call} {w w' : World P} {b : ℕ}

/-- The types of the messages in the topic `booking.events` under the key of the booking `b`,
oldest first. -/
def World.published (w : World P) (b : ℕ) : List EventType :=
  (w.sent.filter fun message =>
    message.topic = "booking.events" ∧ message.key = toString b).map fun message => message.type

/-- In the run `es` from `w`, no step takes the booking `b` further while a message about it is
owed. -/
def World.Undisturbed (calls : P → Call) (b : ℕ) (w : World P) : List (World.Event P) → Prop
  | [] => True
  | e :: es => ∀ w', w.step calls e = some w' →
      ¬Overtaken w.machine w'.machine b ∧ w'.Undisturbed calls b es

/-- A step of the run `es` from `w` commits the transition of the booking `b` that the event
announces. -/
def World.Makes (calls : P → Call) (type : EventType) (b : ℕ) (w : World P) :
    List (World.Event P) → Prop
  | [] => False
  | e :: es => ∃ w', w.step calls e = some w' ∧
      (type.Makes b w.machine.db w'.machine.db ∨ w'.Makes calls type b es)

/-- The process of the machine that an event moves. -/
def World.Event.actor : World.Event P → Option P
  | .run p | .fault p | .answer p _ _ => some p
  | _ => none

/-- What a step of the world is to the machine and to the topic. -/
theorem World.step_cases {e : World.Event P} (hs : w.step calls e = some w') :
    (w'.machine = w.machine ∧ w'.sent = w.sent) ∨
    (∃ e', e'.actor = e.actor ∧ w.machine.step e' = some w'.machine ∧ w'.sent = w.sent) ∨
    ∃ p r message next, e.actor = some p ∧
      w.machine.procs p = .outside (.effect (.send message) next) ∧
      w.machine.step (.reply p r) = some w'.machine ∧ w'.sent = w.sent ++ [message] := by
  have hmachine {e' : ReadCommitted.Event backend P} (he : e'.actor = e.actor)
      (hs : w.stepMachine e' = some w') :
      ∃ e', e'.actor = e.actor ∧ w.machine.step e' = some w'.machine ∧ w'.sent = w.sent := by
    obtain ⟨s, hs', rfl⟩ := World.stepMachine_eq_some.mp hs
    exact ⟨e', he, hs', rfl⟩
  cases e with
  | tick d => exact .inr (.inl (hmachine rfl hs))
  | run p => exact .inr (.inl (hmachine rfl (Option.ite_none_right_eq_some.mp hs).2))
  | fault p => exact .inr (.inl (hmachine rfl (Option.ite_none_right_eq_some.mp hs).2))
  | issue p =>
    obtain ⟨x, -, hs⟩ := Option.bind_eq_some_iff.mp hs
    obtain ⟨-, hs⟩ := Option.ite_none_right_eq_some.mp hs
    cases hs
    exact .inl ⟨rfl, rfl⟩
  | answer p reached replied =>
    obtain ⟨x, hx, hs⟩ := Option.bind_eq_some_iff.mp hs
    obtain ⟨t, -, hs⟩ := Option.bind_eq_some_iff.mp hs
    obtain ⟨next, hp⟩ := World.calling_eq_some.mp hx
    obtain ⟨s, hstep, rfl⟩ := World.stepMachine_eq_some.mp hs
    have hs' : w.machine.step (.reply p (if replied then (w.reach t x reached).2 else .rejected)) =
        some s := by
      rw [← w.machine_reach t x reached]
      exact hstep
    by_cases hsend : reached = true ∧ ∃ message, x = .send message
    · obtain ⟨rfl, message, rfl⟩ := hsend
      exact .inr (.inr ⟨p, _, message, next, rfl, hp, hs', rfl⟩)
    · refine .inr (.inl ⟨_, rfl, hs', ?_⟩)
      -- nothing has come to the topic
      cases reached with
      | false => rfl
      | true =>
        cases x with
        | send message => exact absurd ⟨rfl, message, rfl⟩ hsend
        | add job =>
          simp only [World.reach, World.perform, if_true]
          split <;> rfl
        | _ => rfl
  | promote jobId =>
    obtain ⟨j, -, hs⟩ := Option.bind_eq_some_iff.mp hs
    obtain ⟨due, -, hs⟩ := Option.bind_eq_some_iff.mp hs
    obtain ⟨-, hs⟩ := Option.ite_none_right_eq_some.mp hs
    cases hs
    exact .inl ⟨rfl, rfl⟩
  | take jobId p =>
    obtain ⟨j, -, hs⟩ := Option.bind_eq_some_iff.mp hs
    obtain ⟨-, hs⟩ := Option.ite_none_right_eq_some.mp hs
    cases hs
    exact .inl ⟨rfl, rfl⟩
  | complete jobId =>
    obtain ⟨j, -, hs⟩ := Option.bind_eq_some_iff.mp hs
    obtain ⟨p, -, hs⟩ := Option.bind_eq_some_iff.mp hs
    obtain ⟨-, hs⟩ := Option.ite_none_right_eq_some.mp hs
    cases hs
    exact .inl ⟨rfl, rfl⟩
  | reject jobId =>
    obtain ⟨j, -, hs⟩ := Option.bind_eq_some_iff.mp hs
    obtain ⟨p, -, hs⟩ := Option.bind_eq_some_iff.mp hs
    split at hs <;> cases hs <;> exact .inl ⟨rfl, rfl⟩
  | stall jobId lost =>
    obtain ⟨j, -, hs⟩ := Option.bind_eq_some_iff.mp hs
    obtain ⟨p, -, hs⟩ := Option.bind_eq_some_iff.mp hs
    split at hs <;> cases hs <;> exact .inl ⟨rfl, rfl⟩

/-- Either way the machine stands still, or makes one step of its own. -/
theorem World.machine_step {e : World.Event P} (hs : w.step calls e = some w') :
    w'.machine = w.machine ∨
      ∃ e', e'.actor = e.actor ∧ w.machine.step e' = some w'.machine := by
  obtain ⟨hmachine, -⟩ | ⟨e', hactor, hs', -⟩ | ⟨p, r, _, _, hactor, -, hs', -⟩ :=
    World.step_cases hs
  · exact .inl hmachine
  · exact .inr ⟨e', hactor, hs'⟩
  · exact .inr ⟨.reply p r, hactor.symm, hs'⟩

section Invariant

variable {db₀ : Db backend} {log : P → List (Db backend × Db backend)}

/-- Every step of the world keeps what holds of the messages, and adds at most itself to the
commits. -/
theorem Announced.worldStep (h : Announced db₀ calls log w.machine w.sent) {e : World.Event P}
    (hs : w.step calls e = some w') : ∃ log', Announced db₀ calls log' w'.machine w'.sent ∧
      ∀ p, ∀ c ∈ log' p, c ∈ log p ∨ c = (w.machine.db, w'.machine.db) := by
  obtain ⟨hmachine, hsent⟩ | ⟨e', -, hs', hsent⟩ | ⟨p, r, message, next, -, hp, hs', hsent⟩ :=
    World.step_cases hs
  · rw [hmachine, hsent]
    exact ⟨log, h, fun p c hc => .inl hc⟩
  · rw [hsent]
    refine ⟨_, h.step hs', ?_⟩
    intro p c hc
    exact (List.mem_append.mp hc).imp_right fun hc => State.commits_of_mem hs' hc
  · rw [hsent]
    exact ⟨log, h.send hp hs', fun p c hc => .inl hc⟩

/-- If it takes the booking no further while a message is owed, the messages stay in order. -/
theorem InOrder.worldStep (h : InOrder w.machine w.sent b)
    (hann : Announced db₀ calls log w.machine w.sent) {e : World.Event P}
    (hs : w.step calls e = some w') (hov : ¬Overtaken w.machine w'.machine b) :
    InOrder w'.machine w'.sent b := by
  obtain ⟨hmachine, hsent⟩ | ⟨e', -, hs', hsent⟩ | ⟨p, r, message, next, -, hp, hs', hsent⟩ :=
    World.step_cases hs
  · rw [hmachine, hsent]
    exact h
  · rw [hsent]
    exact h.step hann hs' hov
  · rw [hsent]
    exact h.send hann hp (h.step hann hs' hov)

/-- A run keeps both, and what is behind the processes afterwards was so before, or has been
committed in the run. -/
theorem Announced.worldRun (h : Announced db₀ calls log w.machine w.sent)
    {es : List (World.Event P)} (hrun : w.run calls es = some w') :
    (∃ log', Announced db₀ calls log' w'.machine w'.sent ∧ ∀ p, ∀ c ∈ log' p, c ∈ log p ∨
      ∀ type : EventType, type.Makes b c.1 c.2 → w.Makes calls type b es) ∧
      (InOrder w.machine w.sent b → w.Undisturbed calls b es → InOrder w'.machine w'.sent b) := by
  induction es generalizing w log with
  | nil =>
    cases hrun
    exact ⟨⟨log, h, fun p c hc => .inl hc⟩, fun horder _ => horder⟩
  | cons e es ih =>
    obtain ⟨w₁, hs, hrun⟩ := Option.bind_eq_some_iff.mp hrun
    obtain ⟨log₁, h₁, hlog₁⟩ := h.worldStep hs
    obtain ⟨⟨log', h', hlog'⟩, horder'⟩ := ih h₁ hrun
    refine ⟨⟨log', h', ?_⟩, ?_⟩
    · intro p c hc
      obtain hc | hlater := hlog' p c hc
      · refine (hlog₁ p c hc).imp_right ?_
        -- committed in this step
        rintro rfl type hmakes
        exact ⟨w₁, hs, .inl hmakes⟩
      · exact .inr fun type hmakes => ⟨w₁, hs, .inr (hlater type hmakes)⟩
    · intro horder hundisturbed
      obtain ⟨hov, hrest⟩ := hundisturbed w₁ hs
      exact horder' (horder.worldStep h hs hov) hrest

end Invariant

/-- What has a property in every pair of messages about `b` has it in every pair under the key
of `b`. -/
theorem Announced.pairwise_published {db₀ : Db backend}
    {log : P → List (Db backend × Db backend)} (h : Announced db₀ calls log w.machine w.sent)
    {R : EventType → EventType → Prop}
    (hsent : w.sent.Pairwise fun message message' => message.payload.bookingId = b →
      message'.payload.bookingId = b → R message.type message'.type) :
    (w.published b).Pairwise R := by
  rw [World.published, List.pairwise_map, List.pairwise_filter]
  refine hsent.imp_of_mem ?_
  intro message message' hmessage hmessage' hR hkey hkey'
  -- the key is the text of the booking's id
  have hid {m : Message} (hm : m ∈ w.sent) (hk : m.key = toString b) :
      m.payload.bookingId = b := by
    refine toString_injective ?_
    rw [← hk, (h.reached m hm).2]
  simp only [decide_eq_true_eq] at hkey hkey'
  exact hR (hid hmessage hkey.2) (hid hmessage' hkey'.2)

/-- In every run from an untouched database, what is published of a booking reports a transition
that the run has committed, and is published once. If no transition of the booking commits while a
message about it is owed, the messages are in the order of its life. -/
theorem published_of_run {env : Env} {db : Db backend} {nextId clock : ℕ} (h : Untouched db)
    {es : List (World.Event P)}
    (hrun : (World.start env calls db nextId clock).run calls es = some w) :
    (∀ type ∈ w.published b, (World.start env calls db nextId clock).Makes calls type b es) ∧
      (w.published b).Nodup ∧ ((World.start env calls db nextId clock).Undisturbed calls b es →
        (w.published b).Pairwise fun type type' => type.rank < type'.rank) := by
  have hstart : Announced db calls (fun _ => []) (World.start env calls db nextId clock).machine
    (World.start env calls db nextId clock).sent := Announced.start h
  obtain ⟨⟨log, hann, hlog⟩, horder⟩ := hstart.worldRun (b := b) hrun
  have honce : w.sent.Pairwise fun message message' => message.payload.bookingId = b →
      message'.payload.bookingId = b → message.type ≠ message'.type := by
    refine hann.once.imp ?_
    intro message message' hne hb hb'
    exact hne (hb.trans hb'.symm)
  refine ⟨?_, hann.pairwise_published honce, ?_⟩
  · intro type htype
    simp only [World.published, List.mem_map, List.mem_filter, decide_eq_true_eq] at htype
    obtain ⟨message, ⟨hmessage, -, hkey⟩, rfl⟩ := htype
    obtain ⟨-, hkey'⟩ := hann.reached message hmessage
    obtain ⟨p, c, hc, hmakes⟩ := hann.made message hmessage
    rw [← toString_injective (hkey.symm.trans hkey')] at hmakes
    -- nothing was behind the processes at the start
    obtain hc | hmade := hlog p c hc
    · cases hc
    · exact hmade message.type hmakes
  · intro hundisturbed
    have hin := horder InOrder.start hundisturbed
    refine hann.pairwise_published (honce.imp₂ ?_ hin.order)
    intro message message' hne hle hb hb'
    -- two types of one rank are the same
    refine Nat.lt_of_le_of_ne (hle hb hb') ?_
    intro hrank
    exact hne hb hb' (EventType.rank_injective hrank)

theorem World.undisturbed_append {es es' : List (World.Event P)}
    (hrun : w.run calls es = some w') (h : w.Undisturbed calls b es)
    (h' : w'.Undisturbed calls b es') : w.Undisturbed calls b (es ++ es') := by
  induction es generalizing w with
  | nil =>
    cases hrun
    exact h'
  | cons e es ih =>
    obtain ⟨w₁, hs, hrun⟩ := Option.bind_eq_some_iff.mp hrun
    intro w₂ hs'
    rw [hs] at hs'
    cases hs'
    obtain ⟨hov, hrest⟩ := h w₁ hs
    exact ⟨hov, ih hrun hrest⟩

/-- Where nobody but `p` owes a message, what `p` does alone takes the booking no further while
one is owed: a process inside its transaction owes nothing. -/
theorem World.undisturbed_alone {p : P} {es : List (World.Event P)}
    (hothers : ∀ q type, OwesIn w.machine q b type → q = p)
    (hes : ∀ e ∈ es, ∀ q, e.actor = some q → q = p) : w.Undisturbed calls b es := by
  induction es generalizing w with
  | nil => trivial
  | cons e es ih =>
    obtain ⟨he, hes⟩ := List.forall_mem_cons.mp hes
    intro w' hs
    obtain hmachine | ⟨e', hactor, hs'⟩ := World.machine_step hs
    · rw [hmachine]
      refine ⟨?_, ih ?_ hes⟩
      · rintro ⟨-, type, hbefore, hafter⟩
        exact hbefore hafter
      · rw [hmachine]
        exact hothers
    · refine ⟨?_, ih ?_ hes⟩
      · -- the others owe nothing, so only `p` could disturb, and `p` is not in a transaction
        rintro ⟨⟨q, type, howes⟩, type', hbefore, hafter⟩
        obtain rfl := hothers q type howes
        obtain hdb | ⟨r, β, t, scanned, a, next, rfl, hp, -⟩ := State.db_of_step hs'
        · rw [hdb] at hafter
          exact hbefore hafter
        · obtain rfl := he r hactor.symm
          obtain ⟨prog, hprog, -⟩ := howes
          rw [hp] at hprog
          cases hprog
      · intro q type howes
        obtain hold | hcommits := howes.step hs'
        · exact hothers q type hold
        · refine he q ?_
          rw [← hactor]
          by_contra hne
          rw [State.commits_of_ne hne] at hcommits
          cases hcommits

end World

/-- The reservation, up to its event. -/
def reserving : List (World.Event Bool) :=
  [.run true, .run true, .run true, .run true, .run true, .run true, .run true, .run true,
    .issue true, .answer true true true, .run true, .issue true, .answer true true true]

/-- The confirmation, up to its event. -/
def confirming : List (World.Event Bool) :=
  [.run false, .run false, .run false, .run false, .run false, .run false, .run false, .run false,
    .run false, .issue false, .answer false true true]

theorem published_of_run_inTurn :
    ∃ w, (World.start Env.default reserveAndConfirm oneSeat 1 0).run reserveAndConfirm
        (reserving ++ confirming) = some w ∧
      w.published 1 = [.created, .confirmed] ∧
      (∀ type ∈ w.published 1, (World.start Env.default reserveAndConfirm oneSeat 1 0).Makes
        reserveAndConfirm type 1 (reserving ++ confirming)) ∧
      (w.published 1).Pairwise fun type type' => type.rank < type'.rank := by
  have hrun : (World.start Env.default reserveAndConfirm oneSeat 1 0).run reserveAndConfirm
    (reserving ++ confirming) = some _ := rfl
  have hreserved : (World.start Env.default reserveAndConfirm oneSeat 1 0).run reserveAndConfirm
    reserving = some _ := rfl
  obtain ⟨hmade, -, horder⟩ := published_of_run (b := 1) untouched_oneSeat hrun
  refine ⟨_, hrun, rfl, hmade, ?_⟩
  refine horder (World.undisturbed_append hreserved (World.undisturbed_alone (p := true) ?_ ?_)
    (World.undisturbed_alone (p := false) ?_ ?_))
  · -- the confirmation has not begun
    rintro q type ⟨prog, hq, howes⟩
    cases q with
    | true => rfl
    | false =>
      cases hq
      exact ((Call.confirmBooking 1 7).not_owes Env.default 1 type _ howes).elim
  · simp [reserving, World.Event.actor]
  · -- the reservation has returned
    rintro q type ⟨prog, hq, howes⟩
    cases q with
    | true =>
      cases hq
      exact howes.elim
    | false => rfl
  · simp [confirming, World.Event.actor]

/-- The confirmation commits, and is announced, between the commit of the reservation and its
event. -/
def overtaking : List (World.Event Bool) :=
  [.run true, .run true, .run true, .run true, .run true, .run true, .run true,
    .run false, .run false, .run false, .run false, .run false, .run false, .run false, .run false,
    .run false, .issue false, .answer false true true,
    .run true, .issue true, .answer true true true, .run true, .issue true,
    .answer true true true]

theorem overtaken_messages :
    Untouched oneSeat ∧
      ∃ w, (World.start Env.default reserveAndConfirm oneSeat 1 0).run reserveAndConfirm
          overtaking = some w ∧
        w.published 1 = [.confirmed, .created] ∧
        ¬(w.published 1).Pairwise fun type type' => type.rank < type'.rank := by
  have hrun : (World.start Env.default reserveAndConfirm oneSeat 1 0).run reserveAndConfirm
    overtaking = some _ := rfl
  refine ⟨untouched_oneSeat, _, hrun, rfl, ?_⟩
  show ¬[EventType.confirmed, .created].Pairwise fun type type' => type.rank < type'.rank
  simp [EventType.rank]

end ScalableBooking.Booking
