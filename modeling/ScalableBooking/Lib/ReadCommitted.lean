import Mathlib.Data.Nat.Notation
import Mathlib.Logic.Function.Basic
import Mathlib.Order.Notation

/-!
# Programs over a database at READ COMMITTED

A machine for processes that share one database of rows with primary keys, each running
straight-line code with transactions. The language of the processes is a free monad, so a
program is written in `do` notation and run statement by statement.

* `Signature`: the tables of the database, and the effects a process has on other systems.
* `Tx`: the body of a transaction; `Prog`: a process, with whole transactions as steps.
* `State`, `Event`, `step`: the machine. Each event runs one statement of one process, so a
  run is an arbitrary interleaving.

The isolation level is the one of a multi-version store. A statement reads the last
committed version of a row, or the writer's own version of it. An `UPDATE` first looks for its
row on that snapshot. If it finds it, it waits for the row's lock and evaluates its condition
again on the version that is committed then. A row version that is written and not committed
holds the row's lock, so at most one process has one. An `UPDATE` whose second evaluation
fails holds nothing here: a store that keeps the lock until the transaction ends has fewer
runs than this one.
-/

namespace ScalableBooking.ReadCommitted

/-! ### The database -/

/-- The tables a program works on, keyed by primary keys of all tables together, and the
outside world it talks to. `serial` gives the key of the `n`-th row of the table whose key is
a sequence, and `fault` is the error of a broken connection. -/
structure Signature where
  Key : Type
  Row : Key → Type
  serial : ℕ → Key
  serial_injective : Function.Injective serial
  Effect : Type
  Reply : Type
  Error : Type
  fault : Error
  [decEq : DecidableEq Key]

attribute [instance] Signature.decEq

variable {G : Signature} {α β ρ : Type}

/-- The committed rows. -/
abbrev Db (G : Signature) := ∀ k : G.Key, Option (G.Row k)

/-- What one transaction has written so far: for each row it holds, the committed version
that was there and the new one. -/
abbrev Writes (G : Signature) := ∀ k : G.Key, Option (Option (G.Row k) × G.Row k)

namespace Writes

/-- Nothing written yet. -/
def empty : Writes G := fun _ => none

/-- The database as a transaction with these writes sees it, and as its commit leaves it. -/
def overlay (w : Writes G) (db : Db G) : Db G := fun k =>
  match w k with
  | some (_, row) => some row
  | none => db k

/-- The rows held are still the ones that were there when they were written. -/
def Agrees (w : Writes G) (db : Db G) : Prop :=
  ∀ k old row, w k = some (old, row) → db k = old

/-- Writing the row `k`. -/
def write (w : Writes G) (db : Db G) (k : G.Key) (row : G.Row k) : Writes G :=
  Function.update w k (some (db k, row))

@[simp] theorem overlay_empty (db : Db G) : (empty : Writes G).overlay db = db := rfl

@[simp] theorem write_self (w : Writes G) (db : Db G) (k : G.Key) (row : G.Row k) :
    w.write db k row k = some (db k, row) := by
  simp [write]

/-- Of the database only the row itself matters. -/
theorem write_congr (w : Writes G) {db db' : Db G} {k : G.Key} (h : db k = db' k) (row : G.Row k) :
    w.write db k row = w.write db' k row := by
  rw [write, write, h]

theorem overlay_write (w : Writes G) (db db' : Db G) (k : G.Key) (row : G.Row k) :
    (w.write db k row).overlay db' = Function.update (w.overlay db') k (some row) := by
  ext1 j
  by_cases hj : j = k
  · subst hj
    simp [overlay, write]
  · simp [overlay, write, hj]

/-- A row written now is remembered with its committed version. -/
theorem Agrees.of_write {w : Writes G} {db db' : Db G} {k : G.Key} {row : G.Row k}
    (h : (w.write db k row).Agrees db') : db' k = db k :=
  h k (db k) row (w.write_self db k row)

/-- The rows that were held before are still held. -/
theorem Agrees.of_write_ne {w : Writes G} {db db' : Db G} {k j : G.Key} {row : G.Row k}
    (h : (w.write db k row).Agrees db') (hj : j ≠ k) {old : Option (G.Row j)} {new : G.Row j}
    (hw : w j = some (old, new)) : db' j = old :=
  h j old new (by simp [write, hj, hw])

end Writes

/-! ### Programs -/

/-- The body of a transaction: `UPDATE ... WHERE id = k AND cond RETURNING *`,
`INSERT ... RETURNING *` under the primary key and the foreign keys `refs`, the clock, and an
exception. The new row of an insert gets the next number of the sequence and the
transaction's start time. -/
inductive Tx (G : Signature) (α : Type) : Type where
  | ret (a : α)
  | fail (e : G.Error)
  | now (next : ℕ → Tx G α)
  | update (k : G.Key) (cond : G.Row k → Bool) (set : G.Row k → G.Row k)
      (next : Option (G.Row k) → Tx G α)
  | insert (refs : List G.Key) (row : ∀ n : ℕ, ℕ → G.Row (G.serial n))
      (next : ∀ n : ℕ, G.Row (G.serial n) → Tx G α)

namespace Tx

def bind : Tx G α → (α → Tx G β) → Tx G β
  | ret a, f => f a
  | fail e, _ => fail e
  | now next, f => now fun t => (next t).bind f
  | update k cond set next, f => update k cond set fun row => (next row).bind f
  | insert refs row next, f => insert refs row fun n r => (next n r).bind f

instance : Monad (Tx G) where
  pure := ret
  bind := bind

@[simp] theorem pure_eq (a : α) : (pure a : Tx G α) = ret a := rfl

@[simp] theorem bind_eq (x : Tx G α) (f : α → Tx G β) : x >>= f = x.bind f := rfl

end Tx

/-- A process: the clock, `SELECT * ... WHERE id = k AND cond` outside any transaction, an
effect with its reply, a transaction, and an exception. -/
inductive Prog (G : Signature) (α : Type) : Type 1 where
  | ret (a : α)
  | fail (e : G.Error)
  | now (next : ℕ → Prog G α)
  | select (k : G.Key) (cond : G.Row k → Bool) (next : Option (G.Row k) → Prog G α)
  | effect (x : G.Effect) (next : G.Reply → Prog G α)
  | transaction {β : Type} (body : Tx G β) (next : β → Prog G α)

namespace Prog

def bind : Prog G α → (α → Prog G β) → Prog G β
  | ret a, f => f a
  | fail e, _ => fail e
  | now next, f => now fun t => (next t).bind f
  | select k cond next, f => select k cond fun row => (next row).bind f
  | effect x next, f => effect x fun r => (next r).bind f
  | transaction body next, f => transaction body fun b => (next b).bind f

instance : Monad (Prog G) where
  pure := ret
  bind := bind

@[simp] theorem pure_eq (a : α) : (pure a : Prog G α) = ret a := rfl

@[simp] theorem bind_eq (x : Prog G α) (f : α → Prog G β) : x >>= f = x.bind f := rfl

end Prog

/-! ### The machine -/

/-- Where a process is: between statements outside a transaction, or inside one that began at
`startedAt`. `scanned` says that the `UPDATE` at the head of the body has found its row and is
waiting for the lock. -/
inductive Proc (G : Signature) (ρ : Type) : Type 1 where
  | outside (prog : Prog G ρ)
  | inside {β : Type} (startedAt : ℕ) (scanned : Bool) (body : Tx G β) (next : β → Prog G ρ)

/-- `dirty` holds the row versions that are written and not committed, with their writers. -/
structure State (G : Signature) (P ρ : Type) where
  db : Db G
  dirty : ∀ k : G.Key, Option (P × G.Row k)
  procs : P → Proc G ρ
  nextId : ℕ
  clock : ℕ

/-- `tick` lets time pass. `run` executes the next statement of a process, `reply` answers its
effect, and `fault` breaks its connection: a transaction under way is rolled back. -/
inductive Event (G : Signature) (P : Type) where
  | tick (d : ℕ)
  | run (p : P)
  | reply (p : P) (r : G.Reply)
  | fault (p : P)

/-- The process an event belongs to. -/
def Event.actor {P : Type} : Event G P → Option P
  | .tick _ => none
  | .run p | .reply p _ | .fault p => some p

namespace State

variable {P : Type} [DecidableEq P]

/-- No process has begun. -/
def initial (db : Db G) (nextId clock : ℕ) (code : P → Prog G ρ) : State G P ρ where
  db
  dirty := fun _ => none
  procs p := .outside (code p)
  nextId
  clock

/-- The database as the process `p` sees it. -/
def view (s : State G P ρ) (p : P) : Db G := fun k =>
  match s.dirty k with
  | some (q, row) => if q = p then some row else s.db k
  | none => s.db k

/-- The row versions of the other processes. -/
def dirtyWithout (s : State G P ρ) (p : P) : ∀ k : G.Key, Option (P × G.Row k) := fun k =>
  (s.dirty k).filter fun v => v.1 ≠ p

/-- The process `p` goes on at `proc`. -/
def goto (s : State G P ρ) (p : P) (proc : Proc G ρ) : State G P ρ :=
  { s with procs := Function.update s.procs p proc }

/-- The process `p` writes a version of the row `k`, and with it takes its lock. -/
def write (s : State G P ρ) (p : P) (k : G.Key) (row : G.Row k) : State G P ρ :=
  { s with dirty := Function.update s.dirty k (some (p, row)) }

/-- `COMMIT`. -/
def commit (s : State G P ρ) (p : P) : State G P ρ :=
  { s with db := s.view p, dirty := s.dirtyWithout p }

/-- `ROLLBACK`. -/
def rollback (s : State G P ρ) (p : P) : State G P ρ :=
  { s with dirty := s.dirtyWithout p }

/-- Another process holds the row. -/
def Locked (s : State G P ρ) (p : P) (k : G.Key) : Prop :=
  ∃ v, s.dirty k = some v ∧ v.1 ≠ p

instance (s : State G P ρ) (p : P) (k : G.Key) : Decidable (s.Locked p k) :=
  decidable_of_iff (((s.dirty k).any fun v => v.1 ≠ p) = true) (by
    rw [Option.any_eq_true]
    simp [Locked])

/-- One statement of a transaction. `none`: it has to wait for a lock. -/
def stepTx (s : State G P ρ) (p : P) (t : ℕ) (scanned : Bool) (body : Tx G β)
    (next : β → Prog G ρ) : Option (State G P ρ) :=
  match body with
  -- the body has returned, so the transaction commits
  | .ret b => some ((s.commit p).goto p (.outside (next b)))
  | .fail e => some ((s.rollback p).goto p (.outside (.fail e)))
  | .now k => some (s.goto p (.inside t false (k s.clock) next))
  | .update k cond set cont =>
      -- a version of its own, or the last committed one: the snapshot, or the second look
      match (s.view p k).filter cond with
      | none =>
          if scanned ∧ s.Locked p k then none
          else some (s.goto p (.inside t false (cont none) next))
      | some row =>
          -- found on the snapshot. The row may have another version when the lock is free
          if ¬scanned then some (s.goto p (.inside t true body next))
          else if s.Locked p k then none
          else some ((s.write p k (set row)).goto p (.inside t false (cont (some (set row))) next))
  | .insert refs row cont =>
      -- the number is spent even if a key refuses the row. A referenced row is not locked
      -- against updates of its other columns
      let s' := { s with nextId := s.nextId + 1 }
      if (s.view p (G.serial s.nextId)).isNone ∧ ∀ k ∈ refs, (s.view p k).isSome then
        let new := row s.nextId t
        some ((s'.write p (G.serial s.nextId) new).goto p
          (.inside t false (cont s.nextId new) next))
      else some ((s'.rollback p).goto p (.outside (.fail G.fault)))

/-- One step of the machine, if the event can happen. -/
def step (s : State G P ρ) : Event G P → Option (State G P ρ)
  | .tick d => some { s with clock := s.clock + d }
  | .run p =>
      match s.procs p with
      | .outside (.now next) => some (s.goto p (.outside (next s.clock)))
      | .outside (.select k cond next) =>
          some (s.goto p (.outside (next ((s.db k).filter cond))))
      | .outside (.transaction body next) => some (s.goto p (.inside s.clock false body next))
      -- a finished call does nothing, and an effect waits for its reply
      | .outside _ => none
      | .inside t scanned body next => s.stepTx p t scanned body next
  | .reply p r =>
      match s.procs p with
      | .outside (.effect _ next) => some (s.goto p (.outside (next r)))
      | _ => none
  | .fault p =>
      match s.procs p with
      | .outside (.select _ _ _) | .outside (.transaction _ _) =>
          some (s.goto p (.outside (.fail G.fault)))
      | .inside _ _ _ _ => some ((s.rollback p).goto p (.outside (.fail G.fault)))
      | .outside _ => none

/-- A run of the machine: its events one after another. -/
def run (s : State G P ρ) : List (Event G P) → Option (State G P ρ)
  | [] => some s
  | e :: es => (s.step e).bind fun s' => s'.run es

/-- What the event commits for the process `p`: the database before and after, or nothing. -/
def commits (s : State G P ρ) (p : P) : Event G P → List (Db G × Db G)
  | .run q =>
      match s.procs q with
      | .inside _ _ (.ret _) _ => if q = p then [(s.db, s.view p)] else []
      | _ => []
  | _ => []

/-- The start of the transaction that the event commits. -/
def committing (s : State G P ρ) : Event G P → Option ℕ
  | .run p =>
      match s.procs p with
      | .inside t _ (.ret _) _ => some t
      | _ => none
  | _ => none

/-- The commits of the process `p` in a run, oldest first. -/
def history (s : State G P ρ) (p : P) : List (Event G P) → List (Db G × Db G)
  | [] => []
  | e :: es => s.commits p e ++ ((s.step e).elim [] fun s' => s'.history p es)

end State

end ScalableBooking.ReadCommitted
