import Mathlib.Algebra.Order.Group.Nat
import ScalableBooking.Booking.Contracts

/-!
# The booking module, its queue and its broker

The machine that runs the use cases, together with the two systems they talk to: BullMQ, which
keeps the expiry jobs and hands them to the worker, and the topic `booking.events`.

Of BullMQ the model has what is documented. A job is added under an id unless there is one
already, it starts no earlier than its delay after the call that added it, and it leaves the
queue when its attempt completes, when it is removed, or when it ends in the failed set. Any
attempt may fail or stall, whatever its transaction is doing. The worker's processor is
`expireHold` on the booking of the job, so an attempt is a process of the machine whose call is
`expireHold`, and it does nothing before the worker has taken a job for it.

A call to one of the two systems is made at one time, and may be answered later or never. It may
fail before it has reached the other side, and the answer may be lost on the way back.
-/

namespace ScalableBooking.Booking

open ReadCommitted

/-! ### The queue -/

/-- Where a job of the queue is. A job that waits for its next attempt is `delayed` again. -/
inductive Phase (P : Type) where
  | delayed (due : ℕ)
  | waiting
  | active (p : P)
deriving DecidableEq

/-- A job in the queue. -/
structure Job (P : Type) where
  job : HoldExpiryJob
  attemptsMade : ℕ
  phase : Phase P

namespace Job

variable {P : Type}

/-- The time a delayed job waits for. -/
def due? (j : Job P) : Option ℕ :=
  match j.phase with
  | .delayed due => some due
  | _ => none

/-- The attempt that an active job is in. -/
def attempt? (j : Job P) : Option P :=
  match j.phase with
  | .active p => some p
  | _ => none

theorem attempt?_eq_some {j : Job P} {p : P} : j.attempt? = some p ↔ j.phase = .active p := by
  cases hj : j.phase <;> simp [attempt?, hj]

/-- The exponential backoff after a failed attempt. -/
def backoff (j : Job P) : ℕ := j.job.backoffDelay * 2 ^ j.attemptsMade

end Job

/-- The machine and the two other systems.

`issued p` is the time at which the process `p` has made the call it stands at. `kept` is the
failed set, which is bounded, and `failed` has every job that has ever ended in it. `accepted`
has the bookings for which the queue has taken a job, and `sent` the messages of the topic. -/
structure World (P : Type) where
  machine : State backend P Result
  issued : P → Option ℕ
  jobs : String → Option (Job P)
  kept : List String
  failed : List String
  taken : P → Bool
  accepted : List ℕ
  sent : List Message

/-- The first six events run the machine: time passes, a process makes a step or loses its
connection, makes a call to the queue or the broker, or has it answered. In the others the
queue and the worker make a step on a job: its delay is over, an attempt begins, and it
completes, fails, or stalls. -/
inductive World.Event (P : Type) where
  | tick (d : ℕ)
  | run (p : P)
  | fault (p : P)
  | issue (p : P)
  | answer (p : P) (reached replied : Bool)
  | promote (jobId : String)
  | take (jobId : String) (p : P)
  | complete (jobId : String)
  | reject (jobId : String)
  | stall (jobId : String) (lost : Bool)

namespace World

variable {P : Type} [DecidableEq P]

/-- Nothing has happened. -/
def start (env : Env) (calls : P → Call) (db : Db backend) (nextId clock : ℕ) : World P where
  machine := Booking.start env calls db nextId clock
  issued _ := none
  jobs _ := none
  kept := []
  failed := []
  taken _ := false
  accepted := []
  sent := []

/-- The call that the process `p` stands at. -/
def calling (w : World P) (p : P) : Option Effect :=
  match w.machine.procs p with
  | .outside (.effect x _) => some x
  | _ => none

omit [DecidableEq P] in
theorem calling_eq_some {w : World P} {p : P} {x : Effect} :
    w.calling p = some x ↔ ∃ next, w.machine.procs p = .outside (.effect x next) := by
  simp only [calling]
  split
  · rename_i y next hp
    simp [hp]
  · rename_i hne
    refine ⟨fun h => (by cases h), ?_⟩
    rintro ⟨next, hp⟩
    exact absurd hp (hne x next)

/-- The process `p` has returned. -/
def resolved (w : World P) (p : P) : Bool :=
  match w.machine.procs p with
  | .outside (.ret _) => true
  | _ => false

omit [DecidableEq P] in
theorem resolved_eq_true {w : World P} {p : P} :
    w.resolved p = true ↔ ∃ r, w.machine.procs p = .outside (.ret r) := by
  simp only [resolved]
  split
  · rename_i r hp
    simp [hp]
  · rename_i hne
    refine ⟨fun h => (by cases h), ?_⟩
    rintro ⟨r, hp⟩
    exact absurd hp (hne r)

/-- The process `p` may run: a request always, an attempt once the worker has taken it. -/
def mayRun (calls : P → Call) (w : World P) (p : P) : Bool :=
  match calls p with
  | .expireHold _ => w.taken p
  | _ => true

/-- There is a job under this id, in the queue or in the failed set. -/
def has (w : World P) (jobId : String) : Bool := (w.jobs jobId).isSome || w.kept.contains jobId

/-- The job under this id is now `j`. -/
def setJob (w : World P) (jobId : String) (j : Job P) : World P :=
  { w with jobs := Function.update w.jobs jobId (some j) }

/-- The job under this id has left the queue. -/
def endJob (w : World P) (jobId : String) : World P :=
  { w with jobs := Function.update w.jobs jobId none }

/-- The job `j` ends in the failed set. The oldest ones there are dropped. -/
def exhaust (w : World P) (jobId : String) (j : Job P) : World P :=
  { w.endJob jobId with
    kept := (jobId :: w.kept).take j.job.removeOnFailCount, failed := jobId :: w.failed }

/-- What the other side does with a call that was made at the time `t`, and its answer. -/
def perform (w : World P) (t : ℕ) : Effect → World P × Reply
  | .add job =>
      let w' := { w with accepted := job.bookingId :: w.accepted }
      if w.has job.jobId then (w', .resolved)
      else
        (w'.setJob job.jobId { job, attemptsMade := 0, phase := .delayed (t + job.delay) },
          .resolved)
  | .getJob jobId => (w, if w.has jobId then .resolved else .absent)
  | .remove jobId => ({ w.endJob jobId with kept := w.kept.erase jobId }, .resolved)
  | .send message => ({ w with sent := w.sent ++ [message] }, .resolved)

/-- A step of the machine. -/
def stepMachine (w : World P) (e : ReadCommitted.Event backend P) : Option (World P) :=
  (w.machine.step e).map fun s => { w with machine := s }

theorem stepMachine_eq_some {w w' : World P} {e : ReadCommitted.Event backend P} :
    w.stepMachine e = some w' ↔
      ∃ s, w.machine.step e = some s ∧ { w with machine := s } = w' :=
  Option.map_eq_some_iff

/-- The process `p` waits for no answer any more. -/
def hangUp (w : World P) (p : P) : World P :=
  { w with issued := Function.update w.issued p none }

/-- What has happened on the other side of a call that may not have reached it. -/
def reach (w : World P) (t : ℕ) (x : Effect) (reached : Bool) : World P × Reply :=
  if reached then w.perform t x else (w, .rejected)

/-- The end of a call that was made at the time `t`: it may have reached the other side, and the
answer may have come back. -/
def answer (w : World P) (p : P) (t : ℕ) (x : Effect) (reached replied : Bool) :
    Option (World P) :=
  ((w.reach t x reached).1.hangUp p).stepMachine
    (.reply p (if replied then (w.reach t x reached).2 else .rejected))

omit [DecidableEq P] in
/-- The other side does not touch the machine. -/
theorem machine_reach (w : World P) (t : ℕ) (x : Effect) (reached : Bool) :
    (w.reach t x reached).1.machine = w.machine := by
  cases reached with
  | false => rfl
  | true =>
    cases x with
    | add job =>
      simp only [reach, perform, if_true]
      split <;> rfl
    | _ => rfl

/-- One step, if the event can happen. -/
def step (calls : P → Call) (w : World P) : Event P → Option (World P)
  | .tick d => w.stepMachine (.tick d)
  | .run p => if w.mayRun calls p then w.stepMachine (.run p) else none
  | .fault p => if w.mayRun calls p then w.stepMachine (.fault p) else none
  | .issue p => (w.calling p).bind fun _ =>
      if w.issued p = none then
        some { w with issued := Function.update w.issued p (some w.machine.clock) }
      else none
  | .answer p reached replied => (w.calling p).bind fun x => (w.issued p).bind fun t =>
      w.answer p t x reached replied
  | .promote jobId => (w.jobs jobId).bind fun j => j.due?.bind fun due =>
      if due ≤ w.machine.clock then some (w.setJob jobId { j with phase := .waiting }) else none
  | .take jobId p => (w.jobs jobId).bind fun j =>
      if j.phase = .waiting ∧ calls p = .expireHold j.job.bookingId ∧ w.taken p = false then
        some { w.setJob jobId { j with phase := .active p } with
          taken := Function.update w.taken p true }
      else none
  | .complete jobId => (w.jobs jobId).bind fun j => j.attempt?.bind fun p =>
      if w.resolved p then some (w.endJob jobId) else none
  | .reject jobId => (w.jobs jobId).bind fun j => j.attempt?.bind fun _ =>
      if j.attemptsMade + 1 < j.job.attempts then
        some (w.setJob jobId { j with
          attemptsMade := j.attemptsMade + 1, phase := .delayed (w.machine.clock + j.backoff) })
      else some (w.exhaust jobId j)
  | .stall jobId lost => (w.jobs jobId).bind fun j => j.attempt?.bind fun _ =>
      -- a job that has stalled too often is given up
      if lost then some (w.exhaust jobId j)
      else some (w.setJob jobId { j with phase := .waiting })

/-- A run: its events one after another. -/
def run (calls : P → Call) (w : World P) : List (Event P) → Option (World P)
  | [] => some w
  | e :: es => (w.step calls e).bind fun w' => w'.run calls es

end World

end ScalableBooking.Booking
