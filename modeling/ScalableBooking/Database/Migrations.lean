import Mathlib.Algebra.Group.Int.Defs
import ScalableBooking.Lib.Ddl

/-!
# The migrations and `init.sql`

The two descriptions of the schema: the files of the migration journal, which `db:migrate` runs, and
`infra/postgres/init.sql`, after which `db:baseline` marks them as applied. Both end in the same
tables (`sameShape_initSql`), and no migration touches a row of another table than `bookings`. But
`0001_moaning_boom_boom` gives `bookings.user_id` the type `integer` with no `USING`, and the
column is `text` until then. So where that migration has still to run, it runs exactly if text can
be assigned to an integer (`reachesInit_iff`), which Postgres by itself does not do.
-/

namespace ScalableBooking.Migrations

open Ddl

/-! ### Types and casts -/

inductive SqlType where
  | integer
  | text
  | timestamptz
deriving DecidableEq, Repr

/-- A `timestamptz` counts microseconds. -/
inductive SqlValue where
  | null
  | integer (i : ℤ)
  | text (s : String)
  | timestamptz (t : ℤ)
deriving DecidableEq, Repr

/-- The values of a type. An `integer` has four bytes. -/
def SqlValue.fits : SqlValue → SqlType → Bool
  | integer i, .integer => -2 ^ 31 ≤ i ∧ i < 2 ^ 31
  | text _, .text => true
  | timestamptz _, .timestamptz => true
  | _, _ => false

/-- The implicit and assignment casts of a server. -/
abbrev Casts := SqlType → SqlType → Option (SqlValue → Option SqlValue)

/-- Postgres with these casts. -/
abbrev postgres (casts : Casts) : Dialect SqlType SqlValue where
  null := .null
  fits := SqlValue.fits
  assignment := casts

/-- The casts a server has by itself: what there is can be assigned to text, but text to nothing
else. How a time is written depends on the session. -/
def builtin (render : ℤ → String) : Casts
  | .integer, .text => some fun
      | .integer i => some (.text (toString i))
      | _ => none
  | .timestamptz, .text => some fun
      | .timestamptz t => some (.text (render t))
      | _ => none
  | _, _ => none

/-! ### Columns and constraints -/

abbrev SqlColumn := Column SqlType SqlValue

abbrev SqlTable := Table SqlType SqlValue

abbrev SqlStatement := Statement SqlType SqlValue

/-- `id serial PRIMARY KEY`, the column. -/
def serial (table : String) : SqlColumn where
  name := "id"
  ty := .integer
  notNull := true
  default := some (.nextval (table ++ "_id_seq"))

/-- `id serial PRIMARY KEY`, the key. -/
def primaryKey (table : String) : Key where
  name := table ++ "_pkey"
  columns := ["id"]
  primary := true

def notNull (name : String) (ty : SqlType) : SqlColumn where
  name
  ty
  notNull := true
  default := none

def nullable (name : String) (ty : SqlType) : SqlColumn where
  name
  ty
  notNull := false
  default := none

/-- `NOT NULL DEFAULT`. -/
def withDefault (name : String) (ty : SqlType) (default : Default SqlValue) : SqlColumn where
  name
  ty
  notNull := true
  default := some default

/-- `created_at` and `updated_at`. -/
def timestamp (name : String) : SqlColumn := withDefault name .timestamptz (.call "now")

/-- The name of a constraint that has been given none. -/
def autoName (table : String) (columns : List String) (suffix : String) : String :=
  "_".intercalate (table :: columns ++ [suffix])

/-- `REFERENCES table(id)` at a column, without a name. -/
def references (table column ref : String) : ForeignKey where
  name := autoName table [column] "fkey"
  columns := [column]
  table := ref
  refColumns := ["id"]

/-- `UNIQUE`, without a name. -/
def unique (table : String) (columns : List String) : Key where
  name := autoName table columns "key"
  columns
  primary := false

/-- `CHECK (status IN (allowed))`, without a name. -/
def checkStatus (table : String) (allowed : List String) : Check SqlValue where
  name := autoName table ["status"] "check"
  column := "status"
  allowed := allowed.map .text

/-- A table as `CREATE TABLE` makes it. -/
def table (name : String) (columns : List SqlColumn) (keys : List Key)
    (foreignKeys : List ForeignKey) (checks : List (Check SqlValue)) : SqlTable where
  name
  columns
  keys
  foreignKeys
  checks
  indexes := []
  replicaIdentityFull := false

/-! ### The journal -/

/-- An entry of `meta/_journal.json` with the statements of its file. -/
structure Migration where
  tag : String
  statements : List SqlStatement

/-- `0000_right_firedrake.sql`. -/
def rightFiredrake : List SqlStatement :=
  [.createTable false (table "bookings"
      [serial "bookings", notNull "seat_id" .integer, notNull "user_id" .text,
        withDefault "status" .text (.value (.text "pending")),
        nullable "hold_expires_at" .timestamptz, timestamp "created_at", timestamp "updated_at"]
      [primaryKey "bookings"] [] []),
    .createTable false (table "events"
      [serial "events", notNull "venue_id" .integer, notNull "name" .text,
        notNull "starts_at" .timestamptz, withDefault "status" .text (.value (.text "scheduled")),
        timestamp "created_at"]
      [primaryKey "events"] [] []),
    .createTable false (table "venues"
      [serial "venues", notNull "name" .text, notNull "city" .text, timestamp "created_at"]
      [primaryKey "venues"] [] []),
    .createTable false (table "seats"
      [serial "seats", notNull "event_id" .integer, notNull "section" .text,
        notNull "row_label" .text, notNull "seat_number" .integer,
        withDefault "status" .text (.value (.text "available")),
        withDefault "version" .integer (.value (.integer 0)), timestamp "created_at"]
      [primaryKey "seats",
        { name := "seats_event_id_section_row_label_seat_number_unique"
          columns := ["event_id", "section", "row_label", "seat_number"], primary := false }]
      [] []),
    .addForeignKey "bookings"
      { name := "bookings_seat_id_seats_id_fk", columns := ["seat_id"], table := "seats"
        refColumns := ["id"] },
    .addForeignKey "events"
      { name := "events_venue_id_venues_id_fk", columns := ["venue_id"], table := "venues"
        refColumns := ["id"] },
    .addForeignKey "seats"
      { name := "seats_event_id_events_id_fk", columns := ["event_id"], table := "events"
        refColumns := ["id"] },
    .createIndex false "bookings" { name := "idx_bookings_seat", columns := ["seat_id"] },
    .createIndex false "seats"
      { name := "idx_seats_event_status", columns := ["event_id", "status"] }]

/-- `0001_moaning_boom_boom.sql`. -/
def moaningBoomBoom : List SqlStatement :=
  [.createTable false (table "users"
      [serial "users", notNull "email" .text, notNull "password_hash" .text, timestamp "created_at"]
      [primaryKey "users",
        { name := "users_email_unique", columns := ["email"], primary := false }]
      [] []),
    .setDataType "bookings" "user_id" .integer,
    .addForeignKey "bookings"
      { name := "bookings_user_id_users_id_fk", columns := ["user_id"], table := "users"
        refColumns := ["id"] }]

def journal : List Migration :=
  [{ tag := "0000_right_firedrake", statements := rightFiredrake },
    { tag := "0001_moaning_boom_boom", statements := moaningBoomBoom }]

/-! ### `init.sql` -/

def initSql : List SqlStatement :=
  [.createTable true (table "venues"
      [serial "venues", notNull "name" .text, notNull "city" .text, timestamp "created_at"]
      [primaryKey "venues"] [] []),
    .createTable true (table "events"
      [serial "events", notNull "venue_id" .integer, notNull "name" .text,
        notNull "starts_at" .timestamptz, withDefault "status" .text (.value (.text "scheduled")),
        timestamp "created_at"]
      [primaryKey "events"] [references "events" "venue_id" "venues"]
      [checkStatus "events" ["scheduled", "cancelled", "completed"]]),
    .createTable true (table "seats"
      [serial "seats", notNull "event_id" .integer, notNull "section" .text,
        notNull "row_label" .text, notNull "seat_number" .integer,
        withDefault "status" .text (.value (.text "available")),
        withDefault "version" .integer (.value (.integer 0)), timestamp "created_at"]
      [primaryKey "seats", unique "seats" ["event_id", "section", "row_label", "seat_number"]]
      [references "seats" "event_id" "events"]
      [checkStatus "seats" ["available", "held", "booked"]]),
    .createTable true (table "users"
      [serial "users", notNull "email" .text, notNull "password_hash" .text, timestamp "created_at"]
      [primaryKey "users", unique "users" ["email"]] [] []),
    .createTable true (table "bookings"
      [serial "bookings", notNull "seat_id" .integer, notNull "user_id" .integer,
        withDefault "status" .text (.value (.text "pending")),
        nullable "hold_expires_at" .timestamptz, timestamp "created_at", timestamp "updated_at"]
      [primaryKey "bookings"]
      [references "bookings" "seat_id" "seats", references "bookings" "user_id" "users"]
      [checkStatus "bookings" ["pending", "confirmed", "cancelled", "expired"]]),
    .replicaIdentityFull "seats",
    .createIndex true "seats"
      { name := "idx_seats_event_status", columns := ["event_id", "status"] },
    .createIndex true "bookings" { name := "idx_bookings_seat", columns := ["seat_id"] }]

/-! ### The two paths -/

/-- The statements of the first `k` migrations. -/
def applied (k : ℕ) : List SqlStatement := (journal.take k).flatMap Migration.statements

/-- The statements of the others. -/
def pending (k : ℕ) : List SqlStatement := (journal.drop k).flatMap Migration.statements

/-- `init.sql` and all migrations together describe the same tables. -/
theorem sameShape_initSql : ∃ S S', alterAll [] (applied journal.length) = some S ∧
    alterAll [] initSql = some S' ∧ S.SameShape S' := by
  have h : ((alterAll [] (applied journal.length)).any fun S =>
      (alterAll [] initSql).any fun S' => S.SameShape S') = true := by decide +kernel
  simpa [Option.any_eq_true] using h

section Paths

variable {casts : Casts} {k : ℕ} {db : Database (postgres casts)}

/-- The first `k` migrations are marked as applied: the tables are the ones they describe, or, if
these are all, the ones of an `init.sql` that `db:baseline` has marked so. -/
def AtPrefix (k : ℕ) (db : Database (postgres casts)) : Prop :=
  k ≤ journal.length ∧ (alterAll [] (applied k) = some db.schema ∨
    k = journal.length ∧ alterAll [] initSql = some db.schema)

/-- `db:migrate`: the migrations that are not marked as applied, in one transaction. -/
def migrate (k : ℕ) (db : Database (postgres casts)) : Option (Database (postgres casts)) :=
  runAll db (pending k)

/-- The migrations that remain succeed, keep the rows of venues, events and seats, and end in the
tables of `init.sql`. -/
def ReachesInit (k : ℕ) (db : Database (postgres casts)) : Prop :=
  ∃ db', migrate k db = some db' ∧
    (∀ table ∈ ["venues", "events", "seats"], db'.rows table = db.rows table) ∧
    ∃ S, alterAll [] initSql = some S ∧ db'.schema.SameShape S

/-- After all migrations there is nothing left to do. -/
theorem reachesInit_of_complete (h : AtPrefix journal.length db) :
    ReachesInit journal.length db := by
  refine ⟨db, rfl, fun _ _ => rfl, ?_⟩
  obtain ⟨-, hall | ⟨-, hinit⟩⟩ := h
  · obtain ⟨S, S', hS, hS', hshape⟩ := sameShape_initSql
    rw [hS] at hall
    cases hall
    exact ⟨S', hS', hshape⟩
  · exact ⟨db.schema, hinit, .refl _⟩

/-- At an earlier prefix the remaining migrations complete the schema, with one cast. -/
theorem pending_of_lt (h : AtPrefix k db) (hk : k < journal.length) :
    alterAll db.schema (pending k) = alterAll [] (applied journal.length) ∧
      castsAll db.schema (pending k) = [(.text, .integer)] := by
  obtain ⟨-, hstart | ⟨heq, -⟩⟩ := h
  · refine ⟨?_, ?_⟩
    · have happend : applied journal.length = applied k ++ pending k := by
        rw [applied, applied, pending, ← List.flatMap_append, List.take_append_drop,
          List.take_length]
      rw [happend, alterAll_append, hstart, Option.bind_some]
    · have hcasts : ∀ k < journal.length, (alterAll [] (applied k)).map
          (fun S => castsAll S (pending k)) = some [(.text, .integer)] := by decide +kernel
      simpa [hstart] using hcasts k hk
  · exact absurd heq (Nat.ne_of_lt hk)

/-- The remaining migrations work on new tables and on `bookings`. -/
theorem target_of_pending (h : AtPrefix k db) (hk : k < journal.length) :
    ∀ st ∈ pending k, st.target = "bookings" ∨ db.schema.table? st.target = none := by
  obtain ⟨-, hstart | ⟨heq, -⟩⟩ := h
  · have htargets : ∀ k < journal.length, (alterAll [] (applied k)).all (fun S =>
        (pending k).all fun st => st.target = "bookings" ∨ (S.table? st.target).isNone) = true := by
      decide +kernel
    simpa [hstart] using htargets k hk
  · exact absurd heq (Nat.ne_of_lt hk)

/-- From a prefix of the journal without bookings, `db:migrate` reaches the schema of `init.sql`
exactly if no migration remains or the server can assign text to integers. -/
theorem reachesInit_iff (h : AtPrefix k db) (hbookings : db.rows "bookings" = []) :
    ReachesInit k db ↔ k = journal.length ∨ (casts .text .integer).isSome := by
  obtain rfl | hk := Nat.eq_or_lt_of_le h.1
  · exact iff_of_true (reachesInit_of_complete h) (.inl rfl)
  · obtain ⟨halter, hcasts⟩ := pending_of_lt h hk
    have hhas : (postgres casts).Has (castsAll db.schema (pending k)) ↔
        (casts .text .integer).isSome := by
      simp [hcasts, Dialect.Has, Dialect.cast?]
    rw [or_iff_right (Nat.ne_of_lt hk), ← hhas]
    refine ⟨?_, ?_⟩
    · rintro ⟨db', hrun, -⟩
      exact (alterAll_of_runAll hrun).2
    · intro hcast
      obtain ⟨S, S', hS, hS', hshape⟩ := sameShape_initSql
      -- the tables that change have no rows, so no row is in the way
      have hempty : ∀ st ∈ pending k, db.rows st.target = [] := by
        intro st hst
        obtain hname | habsent := target_of_pending h hk st hst
        · rw [hname, hbookings]
        · exact db.absent _ habsent
      obtain ⟨db', hrun, rfl, hrows⟩ := runAll_of_empty (halter.trans hS) hcast hempty
      exact ⟨db', hrun, fun table _ => by rw [hrows], S', hS', hshape⟩

end Paths

/-- The schema after the first migration. -/
def firstSchema : Schema SqlType SqlValue := (alterAll [] (applied 1)).getD []

/-- One venue with one event and its only seat. -/
def stockedRows : Rows SqlValue
  | "venues" => [fun
      | "id" => .integer 1
      | "name" | "city" => .text "x"
      | "created_at" => .timestamptz 0
      | _ => .null]
  | "events" => [fun
      | "id" | "venue_id" => .integer 1
      | "name" => .text "x"
      | "status" => .text "scheduled"
      | "starts_at" | "created_at" => .timestamptz 0
      | _ => .null]
  | "seats" => [fun
      | "id" | "event_id" | "seat_number" => .integer 1
      | "section" | "row_label" => .text "x"
      | "status" => .text "available"
      | "version" => .integer 0
      | "created_at" => .timestamptz 0
      | _ => .null]
  | _ => []

/-- They can be there after the first migration. -/
def stocked (casts : Casts) : Database (postgres casts) where
  schema := firstSchema
  rows := stockedRows
  valid := by
    have h : Valid (postgres fun _ _ => none) firstSchema stockedRows := by decide +kernel
    exact h
  absent name h := by
    simp only [stockedRows]
    split
    · exact absurd h (by decide +kernel)
    · exact absurd h (by decide +kernel)
    · exact absurd h (by decide +kernel)
    · rfl

/-- A server with no casts but its own does not run the second migration on them. -/
theorem reachesInit_iff_stocked :
    AtPrefix 1 (stocked (builtin toString)) ∧ ¬ReachesInit 1 (stocked (builtin toString)) := by
  have h : AtPrefix 1 (stocked (builtin toString)) := ⟨by decide, .inl (by decide +kernel)⟩
  refine ⟨h, ?_⟩
  rw [reachesInit_iff h rfl]
  decide

/-! ### A new server -/

/-- A database without tables. -/
def newDatabase (casts : Casts) : Database (postgres casts) where
  schema := []
  rows _ := []
  valid := by simp [Valid]
  absent _ _ := rfl

theorem newDatabase_atPrefix (casts : Casts) : AtPrefix 0 (newDatabase casts) :=
  ⟨Nat.zero_le _, .inl rfl⟩

/-- On a new server without `init.sql`, `db:migrate` fails. -/
theorem not_reachesInit_newDatabase :
    AtPrefix 0 (newDatabase (builtin toString)) ∧
      (newDatabase (builtin toString)).rows "bookings" = [] ∧
      migrate 0 (newDatabase (builtin toString)) = none ∧
      ¬ReachesInit 0 (newDatabase (builtin toString)) := by
  have hnone : migrate 0 (newDatabase (builtin toString)) = none := by decide +kernel
  refine ⟨newDatabase_atPrefix _, rfl, hnone, ?_⟩
  rintro ⟨db', hrun, -⟩
  rw [hnone] at hrun
  cases hrun

end ScalableBooking.Migrations
