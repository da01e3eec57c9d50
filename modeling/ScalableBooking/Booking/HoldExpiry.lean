import ScalableBooking.Booking.World

/-!
# Every live hold is covered by its expiry job

The queue is the only thing that ever releases an abandoned seat. Whatever the order of the
calls, the worker's attempts and the failures, a pending booking whose job the queue has taken
has the job still there, or the job has ended in the failed set, and no booking is expired
before its hold is over (`covered_of_run`).

A job can leave the queue in three ways. It is removed by a cancellation, which has committed:
the booking is not pending. Its attempt completes: the processor has resolved, so it has found
the booking no longer pending, or has expired it. Or it ends in the failed set. That it fires
late enough goes back to the delay, which `scheduleHoldExpiry` computes from the clock before the
queue counts it from a later time.
-/

namespace ScalableBooking.Booking

open ReadCommitted

/-! ### Ids of jobs -/

theorem toString_injective : Function.Injective (toString : ℕ → String) := by
  intro a b h
  -- the digits of a number give it back
  have hdigits := congrArg (fun s : String => Nat.ofDigitChars 10 s.toList 0) h
  simpa [toString] using hdigits

theorem holdExpiryJobId_injective : Function.Injective holdExpiryJobId := by
  intro a b h
  refine toString_injective ?_
  simpa [holdExpiryJobId] using h

/-! ### The invariant -/

/-- The booking `b` is there, and its hold is over by the time `t`. -/
def HoldEndsBy (db : Db backend) (b t : ℕ) : Prop :=
  ∃ (row : BookingRow) (holdExpiresAt : ℕ), db (.booking b) = some row ∧
    row.holdExpiresAt = some holdExpiresAt ∧ holdExpiresAt ≤ t

theorem HoldEndsBy.mono {db db' : Db backend} {b t t' : ℕ} (h : HoldEndsBy db b t)
    (hlater : Later db db') (ht : t ≤ t') : HoldEndsBy db' b t' := by
  obtain ⟨row, hold, hrow, hhold, hle⟩ := h
  obtain ⟨row', hrow', hbecomes⟩ := hlater.exists_row hrow
  exact ⟨row', hold, hrow', hbecomes.holdExpiresAt.trans hhold, Nat.le_trans hle ht⟩

/-- The next attempt of the job begins no earlier. -/
def Job.earliest {P : Type} (j : Job P) (clock : ℕ) : ℕ := j.due?.getD clock

theorem Job.earliest_mono {P : Type} (j : Job P) {clock clock' : ℕ} (h : clock ≤ clock') :
    j.earliest clock ≤ j.earliest clock' := by
  rw [earliest, earliest]
  cases j.due? with
  | none => exact h
  | some due => exact Nat.le_refl _

/-- The row of a booking after a transaction is the settled one, or an old one. -/
theorem settle_booking_cases {db : Db backend} {b c : ℕ} {booking row : BookingRow}
    {seat : SeatRow} (h : settle db b booking seat (.booking c) = some row) :
    c = b ∧ row = booking ∨ db (.booking c) = some row := by
  by_cases hc : c = b
  · subst hc
    rw [settle_booking_self, Option.some.injEq] at h
    exact .inl ⟨rfl, h.symm⟩
  · rw [settle_booking_ne hc] at h
    exact .inr h

/-- A booking is expired by `expireHold` only. -/
theorem Call.guar_expired {call : Call} {start : ℕ} {db db' : Db backend} {b : ℕ}
    {row : BookingRow} (h : call.guar start db db') (hrow : db' (.booking b) = some row)
    (hexpired : row.status = .expired) : db (.booking b) = some row ∨ call = .expireHold b := by
  cases call with
  | reserveSeat seatId userId =>
    obtain ⟨seat, c, hold, -, -, -, rfl⟩ := h
    obtain ⟨rfl, rfl⟩ | hold := settle_booking_cases hrow
    · cases hexpired
    · exact .inl hold
  | confirmBooking c userId =>
    obtain rfl | ⟨booking, booking', seat, -, -, -, -, ⟨now, -, rfl⟩, rfl⟩ := h
    · exact .inl hrow
    · obtain ⟨rfl, rfl⟩ | hold := settle_booking_cases hrow
      · cases hexpired
      · exact .inl hold
  | cancelBooking c userId =>
    obtain rfl | ⟨booking, booking', seat, -, -, -, -, ⟨now, -, rfl⟩, rfl⟩ := h
    · exact .inl hrow
    · obtain ⟨rfl, rfl⟩ | hold := settle_booking_cases hrow
      · cases hexpired
      · exact .inl hold
  | expireHold c =>
    obtain rfl | ⟨booking, booking', seat, -, -, -, -, rfl, rfl⟩ := h
    · exact .inl hrow
    · -- the only transaction that writes `expired`
      obtain ⟨rfl, -⟩ | hold := settle_booking_cases hrow
      · exact .inr rfl
      · exact .inl hold

section World

variable {P : Type} [DecidableEq P]

/-- The expiry job of the booking is in the queue, or has ended in the failed set. -/
def World.Covers (w : World P) (b : ℕ) : Prop :=
  (w.jobs (holdExpiryJobId b)).isSome ∨ holdExpiryJobId b ∈ w.failed

/-- The invariant of a run. `base p` is a database that was there when the worker took the
attempt `p`, and `log p` are the commits of the process `p`. -/
structure Covered (calls : P → Call) (base : P → Db backend)
    (log : P → List (Db backend × Db backend)) (w : World P) : Prop where
  sound : Sound discipline (fun p => (calls p).contract)
    (fun p r κ => (calls p).Returns (base p) r κ.seen) log w.machine
  /-- An attempt the worker has not taken has done nothing. -/
  idle : ∀ p b, calls p = .expireHold b → w.taken p = false →
    w.machine.procs p = .outside (expireHold b) ∧ log p = []
  /-- One it has taken is about a hold that was over by then. -/
  attempt : ∀ p b, calls p = .expireHold b → w.taken p = true →
    HoldEndsBy (base p) b w.machine.clock ∧ Later (base p) w.machine.db
  /-- A job is under the id of its booking, whose hold is over when it begins. -/
  job : ∀ jobId j, w.jobs jobId = some j → jobId = holdExpiryJobId j.job.bookingId ∧
    HoldEndsBy w.machine.db j.job.bookingId (j.earliest w.machine.clock) ∧
      ∀ p, j.phase = .active p → calls p = .expireHold j.job.bookingId ∧ w.taken p = true
  /-- A job about to be added is one, too, counted from when the call was made. -/
  call : ∀ p t, w.issued p = some t → t ≤ w.machine.clock ∧
    ∃ x next, w.machine.procs p = .outside (.effect x next) ∧ ∀ job, x = .add job →
      job.jobId = holdExpiryJobId job.bookingId ∧
        HoldEndsBy w.machine.db job.bookingId (t + job.delay)
  /-- A booking whose job was taken is covered while it is pending. -/
  accepted : ∀ b ∈ w.accepted, ∃ row : BookingRow, w.machine.db (.booking b) = some row ∧
    (row.status = .pending → w.Covers b)
  kept : w.kept ⊆ w.failed
  /-- An expired booking's hold is over. -/
  expired : ∀ (b : ℕ) (row : BookingRow), w.machine.db (.booking b) = some row →
    row.status = .expired → HoldEndsBy w.machine.db b w.machine.clock

theorem Covered.start {env : Env} {calls : P → Call} {db : Db backend} {nextId clock : ℕ}
    (h : Untouched db) :
    Covered calls (fun _ => db) (fun _ => []) (World.start env calls db nextId clock) where
  sound := start_sound h
  idle p b hcall _ := by
    refine ⟨?_, rfl⟩
    show Proc.outside ((calls p).code env) = _
    rw [hcall]
    rfl
  attempt p b _ htaken := by cases htaken
  job jobId j hj := by cases hj
  call p t ht := by cases ht
  accepted b hb := by cases hb
  kept := List.Subset.refl _
  expired b row hrow := by
    have hnone : db (.booking b) = some row := hrow
    simp [h.bookings b] at hnone

namespace Covered

variable {calls : P → Call} {base : P → Db backend}
  {log : P → List (Db backend × Db backend)} {w w' : World P}

/-- A process that stands at a call to the outside is under way. -/
theorem mayRun_of_effect (h : Covered calls base log w) {p : P} {x : Effect}
    {next : Reply → Prog backend Result} (hp : w.machine.procs p = .outside (.effect x next)) :
    w.mayRun calls p = true := by
  cases hcall : calls p with
  | expireHold b =>
    simp only [World.mayRun, hcall]
    by_contra htaken
    -- before the worker takes it, an attempt stands at its transaction
    obtain ⟨hidle, -⟩ := h.idle p b hcall (by simpa using htaken)
    rw [hp] at hidle
    cases hidle
  | _ => simp [World.mayRun, hcall]

/-- A step of the machine by a process that may run. -/
theorem machine (h : Covered calls base log w) {e : Event backend P} {s' : State backend P Result}
    (hs : w.machine.step e = some s') (hrun : ∀ p, e.actor = some p → w.mayRun calls p = true)
    (hreply : ∀ p r, e = .reply p r → w.issued p = none) :
    Covered calls base (fun p => log p ++ w.machine.commits p e) { w with machine := s' } := by
  obtain ⟨hclock, hprocs⟩ := State.step_frame hs
  have hlater : Later w.machine.db s'.db := h.sound.rely_step hs
  refine ⟨h.sound.step hs, ?_, ?_, ?_, ?_, ?_, h.kept, ?_⟩
  · intro p b hcall htaken
    -- the step is not one of an attempt that waits
    have hne : e.actor ≠ some p := by
      intro hactor
      have hrun' := hrun p hactor
      simp only [World.mayRun, hcall] at hrun'
      rw [hrun'] at htaken
      cases htaken
    obtain ⟨hidle, hlog⟩ := h.idle p b hcall htaken
    exact ⟨(hprocs p hne).trans hidle, by rw [hlog, State.commits_of_ne hne, List.append_nil]⟩
  · intro p b hcall htaken
    obtain ⟨hhold, hbase⟩ := h.attempt p b hcall htaken
    exact ⟨hhold.mono (discipline.rely_refl _) hclock, discipline.rely_trans _ _ _ hbase hlater⟩
  · intro jobId j hj
    obtain ⟨hid, hhold, hactive⟩ := h.job jobId j hj
    exact ⟨hid, hhold.mono hlater (j.earliest_mono hclock), hactive⟩
  · intro p t ht
    obtain ⟨htime, x, next, hp, hadd⟩ := h.call p t ht
    have hne : e.actor ≠ some p := by
      intro hactor
      obtain ⟨r, rfl⟩ := State.step_of_effect hp hs hactor
      rw [hreply p r rfl] at ht
      cases ht
    refine ⟨Nat.le_trans htime hclock, x, next, (hprocs p hne).trans hp, ?_⟩
    intro job hjob
    obtain ⟨hid, hhold⟩ := hadd job hjob
    exact ⟨hid, hhold.mono hlater (Nat.le_refl _)⟩
  · intro b hb
    obtain ⟨row, hrow, hcovers⟩ := h.accepted b hb
    obtain ⟨row', hrow', hbecomes⟩ := hlater.exists_row hrow
    refine ⟨row', hrow', ?_⟩
    intro hpending
    exact hcovers (hbecomes.pending hpending)
  · intro b row hrow hexpired
    obtain hdb | ⟨p, t, rfl, -, hguar, -⟩ := h.sound.db_step hs
    · have hrow' : s'.db (.booking b) = some row := hrow
      rw [hdb] at hrow'
      exact (h.expired b row hrow' hexpired).mono hlater hclock
    · obtain hold | hcall := Call.guar_expired hguar hrow hexpired
      · exact (h.expired b row hold hexpired).mono hlater hclock
      · -- the step expires the booking, so it is one of an attempt the worker has taken
        have htaken := hrun p rfl
        simp only [World.mayRun, hcall] at htaken
        obtain ⟨hhold, hbase⟩ := h.attempt p b hcall htaken
        exact hhold.mono (discipline.rely_trans _ _ _ hbase hlater) hclock

/-- A call is made: the contract of the process holds at this time. -/
theorem issue (h : Covered calls base log w) {p : P} {x : Effect} (hx : w.calling p = some x) :
    Covered calls base log
      { w with issued := Function.update w.issued p (some w.machine.clock) } := by
  refine { h with call := ?_ }
  intro q t ht
  by_cases hq : q = p
  · subst hq
    simp only [Function.update_self, Option.some.injEq] at ht
    subst ht
    obtain ⟨next, hp⟩ := World.calling_eq_some.mp hx
    refine ⟨Nat.le_refl _, x, next, hp, ?_⟩
    rintro job rfl
    obtain ⟨κ, hseen, htime, -, hid, row, hold, hrow, hhold, hle⟩ := h.sound.act hp
    rw [hseen] at hrow
    exact ⟨hid, row, hold, hrow, hhold, Nat.le_trans hle (Nat.add_le_add_right htime _)⟩
  · simp only [Function.update_of_ne hq] at ht
    exact h.call q t ht

/-- A job under way is replaced by a later state of itself. -/
theorem setJob (h : Covered calls base log w) {jobId : String} {j : Job P}
    (hid : jobId = holdExpiryJobId j.job.bookingId)
    (hhold : HoldEndsBy w.machine.db j.job.bookingId (j.earliest w.machine.clock))
    (hactive : ∀ p, j.phase = .active p →
      calls p = .expireHold j.job.bookingId ∧ w.taken p = true) :
    Covered calls base log (w.setJob jobId j) := by
  refine { h with job := ?_, accepted := ?_ }
  · intro jobId' j' hj'
    by_cases hjobId : jobId' = jobId
    · subst hjobId
      simp only [World.setJob, Function.update_self, Option.some.injEq] at hj'
      subst hj'
      exact ⟨hid, hhold, hactive⟩
    · simp only [World.setJob, Function.update_of_ne hjobId] at hj'
      exact h.job jobId' j' hj'
  · intro b hb
    obtain ⟨row, hrow, hcovers⟩ := h.accepted b hb
    refine ⟨row, hrow, ?_⟩
    intro hpending
    obtain hjob | hfailed := hcovers hpending
    · refine .inl ?_
      -- whatever was under the id of the booking, a job still is
      by_cases hjobId : holdExpiryJobId b = jobId
      · simp [World.setJob, hjobId]
      · simpa [World.setJob, hjobId] using hjob
    · exact .inr hfailed

/-- A job leaves the queue, for a booking that is not pending or for the failed set. -/
theorem endJob (h : Covered calls base log w) {jobId : String} {kept failed : List String}
    (hkept : kept ⊆ failed) (hfailed : w.failed ⊆ failed)
    (hend : ∀ (b : ℕ) (row : BookingRow), jobId = holdExpiryJobId b →
      w.machine.db (.booking b) = some row → row.status = .pending → jobId ∈ failed) :
    Covered calls base log { w.endJob jobId with kept, failed } := by
  refine { h with job := ?_, accepted := ?_, kept := hkept }
  · intro jobId' j' hj'
    by_cases hjobId : jobId' = jobId
    · simp [World.endJob, hjobId] at hj'
    · simp only [World.endJob, Function.update_of_ne hjobId] at hj'
      exact h.job jobId' j' hj'
  · intro b hb
    obtain ⟨row, hrow, hcovers⟩ := h.accepted b hb
    refine ⟨row, hrow, ?_⟩
    intro hpending
    by_cases hjobId : holdExpiryJobId b = jobId
    · -- the booking was covered by the job that ends here
      refine .inr ?_
      rw [hjobId]
      exact hend b row hjobId.symm hrow hpending
    · obtain hjob | hold := hcovers hpending
      · exact .inl (by simpa [World.endJob, hjobId] using hjob)
      · exact .inr (hfailed hold)

/-- A job ends in the failed set. -/
theorem exhaust (h : Covered calls base log w) (jobId : String) (j : Job P) :
    Covered calls base log (w.exhaust jobId j) := by
  refine h.endJob ?_ (List.subset_cons_self _ _) ?_
  · intro x hx
    obtain rfl | hx := List.mem_cons.mp (List.mem_of_mem_take hx)
    · exact List.mem_cons_self
    · exact List.mem_cons_of_mem _ (h.kept hx)
  · intro _ _ _ _ _
    exact List.mem_cons_self

/-- The worker begins an attempt. From now on it is held to what it finds. -/
theorem attemptBegins (h : Covered calls base log w) {b : ℕ} {p : P}
    (hcall : calls p = .expireHold b) (htaken : w.taken p = false)
    (hhold : HoldEndsBy w.machine.db b w.machine.clock) :
    Covered calls (Function.update base p w.machine.db) log
      { w with taken := Function.update w.taken p true } := by
  obtain ⟨hidle, hlog⟩ := h.idle p b hcall htaken
  refine { h with sound := ?_, idle := ?_, attempt := ?_, job := ?_ }
  · refine h.sound.promise (p := p) ?_ ?_
    · intro q hq
      rw [Function.update_of_ne hq]
    · -- it has done nothing, so it is safe from the database as it is now
      obtain ⟨κ, -, -, -, hsafe⟩ := h.sound.safe p
      rw [hidle] at hsafe ⊢
      refine ⟨⟨w.machine.db, w.machine.clock, []⟩, discipline.rely_refl _, Nat.le_refl _,
        hlog.symm, hsafe.1, ?_⟩
      simp only [Function.update_self, hcall]
      exact expireHold_safe b _
  · intro q c hcall' htaken'
    by_cases hq : q = p
    · subst hq
      simp at htaken'
    · simp only [Function.update_of_ne hq] at htaken'
      exact h.idle q c hcall' htaken'
  · intro q c hcall' htaken'
    by_cases hq : q = p
    · subst hq
      rw [hcall] at hcall'
      cases hcall'
      rw [Function.update_self]
      exact ⟨hhold, discipline.rely_refl _⟩
    · simp only [Function.update_of_ne hq] at htaken' ⊢
      exact h.attempt q c hcall' htaken'
  · intro jobId j hj
    obtain ⟨hid, hhold', hactive⟩ := h.job jobId j hj
    refine ⟨hid, hhold', ?_⟩
    intro q hq
    obtain ⟨hcall', htaken'⟩ := hactive q hq
    refine ⟨hcall', ?_⟩
    by_cases hqp : q = p
    · simp [hqp]
    · simpa [hqp] using htaken'

/-- The queue has taken a job. -/
theorem accept (h : Covered calls base log w) {b : ℕ} {row : BookingRow}
    (hrow : w.machine.db (.booking b) = some row) (hcovers : w.Covers b) :
    Covered calls base log { w with accepted := b :: w.accepted } := by
  refine { h with accepted := ?_ }
  intro c hc
  obtain rfl | hc := List.mem_cons.mp hc
  · exact ⟨row, hrow, fun _ => hcovers⟩
  · exact h.accepted c hc

/-- What the queue and the broker do with a call. -/
theorem perform (h : Covered calls base log w) {p : P} {x : Effect} {t : ℕ}
    (hx : w.calling p = some x) (ht : w.issued p = some t) :
    Covered calls base log (w.perform t x).1 := by
  obtain ⟨next, hp⟩ := World.calling_eq_some.mp hx
  cases x with
  | add job =>
    obtain ⟨-, x, next', hp', hadd⟩ := h.call p t ht
    rw [hp] at hp'
    cases hp'
    obtain ⟨hid, hhold⟩ := hadd job rfl
    obtain ⟨row, -, hrow, -⟩ := id hhold
    simp only [World.perform]
    split
    · rename_i hhas
      -- nothing is added, for there is a job under the id or a failed one
      refine h.accept hrow ?_
      rw [hid, World.has, Bool.or_eq_true, List.contains_iff_mem] at hhas
      exact hhas.imp id (h.kept ·)
    · have hset : Covered calls base log
          (w.setJob job.jobId ⟨job, 0, .delayed (t + job.delay)⟩) :=
        h.setJob hid hhold fun q hq => by cases hq
      refine hset.accept hrow (.inl ?_)
      simp [World.setJob, hid]
  | getJob jobId => exact h
  | remove jobId =>
    obtain ⟨κ, hseen, -, -, c, row, rfl, hrow, hcancelled⟩ := h.sound.act hp
    refine h.endJob (fun x hx => h.kept (List.mem_of_mem_erase hx)) (List.Subset.refl _) ?_
    intro b row' hb hrow' hpending
    -- the job is one of a cancelled booking
    rw [holdExpiryJobId_injective hb, hseen, hrow'] at hrow
    cases hrow
    rw [hpending] at hcancelled
    cases hcancelled
  | send message => exact { h with }

theorem hangUp (h : Covered calls base log w) (p : P) : Covered calls base log (w.hangUp p) := by
  refine { h with call := ?_ }
  intro q t ht
  by_cases hq : q = p
  · simp [World.hangUp, hq] at ht
  · simp only [World.hangUp, Function.update_of_ne hq] at ht
    exact h.call q t ht

/-- A call is answered, or given up. -/
theorem answer (h : Covered calls base log w) {p : P} {x : Effect} {t : ℕ} {reached replied : Bool}
    (hx : w.calling p = some x) (ht : w.issued p = some t)
    (hs : w.answer p t x reached replied = some w') : ∃ log, Covered calls base log w' := by
  -- what has reached the other side is done there first
  have hreach : Covered calls base log (w.reach t x reached).1 := by
    cases reached with
    | true => exact h.perform hx ht
    | false => exact h
  obtain ⟨s', hs', rfl⟩ := Option.map_eq_some_iff.mp hs
  obtain ⟨next, hp⟩ := World.calling_eq_some.mp hx
  refine ⟨_, (hreach.hangUp p).machine hs' ?_ ?_⟩
  · rintro q hq
    cases hq
    exact (hreach.hangUp p).mayRun_of_effect (by rw [← hp, ← w.machine_reach t x reached]; rfl)
  · intro q r hq
    cases hq
    simp [World.hangUp]

/-- Every step keeps the invariant. -/
theorem step (h : Covered calls base log w) {e : World.Event P} (hs : w.step calls e = some w') :
    ∃ base log, Covered calls base log w' := by
  cases e with
  | tick d =>
    obtain ⟨s', hs', rfl⟩ := World.stepMachine_eq_some.mp hs
    exact ⟨base, _, h.machine hs' (fun p hp => by cases hp) (fun p r hp => by cases hp)⟩
  | run p =>
    obtain ⟨hmay, hs⟩ := Option.ite_none_right_eq_some.mp hs
    obtain ⟨s', hs', rfl⟩ := World.stepMachine_eq_some.mp hs
    refine ⟨base, _, h.machine hs' ?_ (fun p r hp => by cases hp)⟩
    rintro q hq
    cases hq
    exact hmay
  | fault p =>
    obtain ⟨hmay, hs⟩ := Option.ite_none_right_eq_some.mp hs
    obtain ⟨s', hs', rfl⟩ := World.stepMachine_eq_some.mp hs
    refine ⟨base, _, h.machine hs' ?_ (fun p r hp => by cases hp)⟩
    rintro q hq
    cases hq
    exact hmay
  | issue p =>
    obtain ⟨x, hx, hs⟩ := Option.bind_eq_some_iff.mp hs
    obtain ⟨-, hs⟩ := Option.ite_none_right_eq_some.mp hs
    cases hs
    exact ⟨base, log, h.issue hx⟩
  | answer p reached replied =>
    obtain ⟨x, hx, hs⟩ := Option.bind_eq_some_iff.mp hs
    obtain ⟨t, ht, hs⟩ := Option.bind_eq_some_iff.mp hs
    exact ⟨base, h.answer hx ht hs⟩
  | promote jobId =>
    obtain ⟨j, hj, hs⟩ := Option.bind_eq_some_iff.mp hs
    obtain ⟨due, hdue, hs⟩ := Option.bind_eq_some_iff.mp hs
    obtain ⟨hle, hs⟩ := Option.ite_none_right_eq_some.mp hs
    cases hs
    obtain ⟨hid, hhold, -⟩ := h.job jobId j hj
    refine ⟨base, log, h.setJob hid ?_ (fun p hp => by cases hp)⟩
    -- the delay is over
    rw [Job.earliest, hdue] at hhold
    exact hhold.mono (discipline.rely_refl _) hle
  | take jobId p =>
    obtain ⟨j, hj, hs⟩ := Option.bind_eq_some_iff.mp hs
    obtain ⟨⟨hwaiting, hcall, htaken⟩, hs⟩ := Option.ite_none_right_eq_some.mp hs
    cases hs
    obtain ⟨hid, hhold, -⟩ := h.job jobId j hj
    rw [Job.earliest, Job.due?, hwaiting] at hhold
    refine ⟨_, log, (h.attemptBegins hcall htaken hhold).setJob hid hhold ?_⟩
    rintro q hq
    cases hq
    exact ⟨hcall, Function.update_self _ _ _⟩
  | complete jobId =>
    obtain ⟨j, hj, hs⟩ := Option.bind_eq_some_iff.mp hs
    obtain ⟨p, hp, hs⟩ := Option.bind_eq_some_iff.mp hs
    obtain ⟨hresolved, hs⟩ := Option.ite_none_right_eq_some.mp hs
    cases hs
    refine ⟨base, log, h.endJob h.kept (List.Subset.refl _) ?_⟩
    intro b row hb hrow hpending
    obtain ⟨hid, -, hactive⟩ := h.job jobId j hj
    obtain ⟨hcall, htaken⟩ := hactive p (Job.attempt?_eq_some.mp hp)
    rw [hb] at hid
    rw [← holdExpiryJobId_injective hid] at hcall
    -- the attempt has returned, so it has seen the booking not pending
    obtain ⟨⟨row₀, -, hrow₀, -⟩, -⟩ := h.attempt p b hcall htaken
    obtain ⟨r, hr⟩ := World.resolved_eq_true.mp hresolved
    obtain ⟨κ, hlater, -, -, hret⟩ := h.sound.returned hr
    rw [hcall] at hret
    obtain ⟨row₁, hrow₁, hne⟩ := hret.2.2 row₀ hrow₀
    obtain ⟨row₂, hrow₂, hbecomes⟩ := Later.exists_row hlater hrow₁
    rw [hrow] at hrow₂
    cases hrow₂
    exact absurd (hbecomes.pending hpending) hne
  | reject jobId =>
    obtain ⟨j, hj, hs⟩ := Option.bind_eq_some_iff.mp hs
    obtain ⟨p, hp, hs⟩ := Option.bind_eq_some_iff.mp hs
    split at hs
    · cases hs
      obtain ⟨hid, hhold, -⟩ := h.job jobId j hj
      refine ⟨base, log, h.setJob hid ?_ (fun p hp => by cases hp)⟩
      -- the job was active, so the hold is over already
      rw [Job.earliest, Job.due?, Job.attempt?_eq_some.mp hp] at hhold
      exact hhold.mono (discipline.rely_refl _) (Nat.le_add_right _ _)
    · cases hs
      exact ⟨base, log, h.exhaust jobId j⟩
  | stall jobId lost =>
    obtain ⟨j, hj, hs⟩ := Option.bind_eq_some_iff.mp hs
    obtain ⟨p, hp, hs⟩ := Option.bind_eq_some_iff.mp hs
    split at hs
    · cases hs
      exact ⟨base, log, h.exhaust jobId j⟩
    · cases hs
      obtain ⟨hid, hhold, -⟩ := h.job jobId j hj
      refine ⟨base, log, h.setJob hid ?_ (fun p hp => by cases hp)⟩
      rw [Job.earliest, Job.due?, Job.attempt?_eq_some.mp hp] at hhold
      exact hhold

/-- Every run keeps it. -/
theorem run (h : Covered calls base log w) {es : List (World.Event P)}
    (hs : w.run calls es = some w') : ∃ base log, Covered calls base log w' := by
  induction es generalizing w base log with
  | nil =>
    cases hs
    exact ⟨base, log, h⟩
  | cons e es ih =>
    obtain ⟨w₁, hs₁, hrun⟩ := Option.bind_eq_some_iff.mp hs
    obtain ⟨base₁, log₁, h₁⟩ := h.step hs₁
    exact ih h₁ hrun

end Covered

/-- Live holds are covered in the state `w`, and no hold has been cut short. -/
structure HoldsCovered (w : World P) : Prop where
  /-- A pending booking has its job in the queue: delayed, also before a retry, waiting or
  active. Or the queue has never taken one for it, or the job has ended in the failed set. -/
  pending : ∀ (b : ℕ) (row : BookingRow), w.machine.db (.booking b) = some row →
    row.status = .pending →
      (∃ j, w.jobs (holdExpiryJobId b) = some j ∧ j.job.bookingId = b) ∨ b ∉ w.accepted ∨
        holdExpiryJobId b ∈ w.failed
  /-- An expired booking was not expired before its `holdExpiresAt`. -/
  expired : ∀ (b : ℕ) (row : BookingRow), w.machine.db (.booking b) = some row →
    row.status = .expired →
      ∃ holdExpiresAt, row.holdExpiresAt = some holdExpiresAt ∧ holdExpiresAt ≤ w.machine.clock

/-- In every run from an untouched database, every live hold is covered by its expiry job. -/
theorem covered_of_run {env : Env} {calls : P → Call} {db : Db backend} {nextId clock : ℕ}
    (h : Untouched db) {es : List (World.Event P)} {w : World P}
    (hrun : (World.start env calls db nextId clock).run calls es = some w) : HoldsCovered w := by
  obtain ⟨base, log, hcovered⟩ := Covered.run (Covered.start h) hrun
  refine ⟨?_, ?_⟩
  · intro b row hrow hpending
    by_cases hb : b ∈ w.accepted
    · obtain ⟨row', hrow', hcovers⟩ := hcovered.accepted b hb
      rw [hrow] at hrow'
      cases hrow'
      obtain hjob | hfailed := hcovers hpending
      · -- the job under the id of the booking is the one of the booking
        obtain ⟨j, hj⟩ := Option.isSome_iff_exists.mp hjob
        exact .inl ⟨j, hj, (holdExpiryJobId_injective (hcovered.job _ j hj).1).symm⟩
      · exact .inr (.inr hfailed)
    · exact .inr (.inl hb)
  · intro b row hrow hexpired
    obtain ⟨row', hold, hrow', hhold, hle⟩ := hcovered.expired b row hrow hexpired
    rw [hrow] at hrow'
    cases hrow'
    exact ⟨hold, hhold, hle⟩

end World

/-- A reservation whose expiry is scheduled, fires, fails once and is tried again. The second
attempt expires the booking. -/
def abandoned : ℕ → Call
  | 0 => .reserveSeat 1 7
  | _ => .expireHold 1

def abandonedRun : List (World.Event ℕ) :=
  [.run 0, .run 0, .run 0, .run 0, .run 0, .run 0, .run 0, .tick 3, .run 0, .issue 0,
    .answer 0 true true, .tick 300000, .promote "hold-expiry-1", .take "hold-expiry-1" 1,
    .run 1, .run 1, .fault 1, .reject "hold-expiry-1", .tick 5000, .promote "hold-expiry-1",
    .take "hold-expiry-1" 2, .run 2, .run 2, .run 2, .run 2, .run 2, .run 2,
    .complete "hold-expiry-1"]

theorem covered_of_run_abandoned :
    ∃ w row, (World.start Env.default abandoned oneSeat 1 0).run abandoned abandonedRun = some w ∧
      w.machine.db (.booking 1) = some row ∧ row.status = .expired ∧
      w.jobs "hold-expiry-1" = none ∧ HoldsCovered w := by
  have hrun : (World.start Env.default abandoned oneSeat 1 0).run abandoned abandonedRun =
    some _ := rfl
  exact ⟨_, _, hrun, rfl, rfl, rfl, covered_of_run untouched_oneSeat hrun⟩

end ScalableBooking.Booking
