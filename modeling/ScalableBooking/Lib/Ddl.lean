import Mathlib.Data.List.Perm.Basic
import Mathlib.Logic.Function.Basic

/-!
# Tables, and the statements that define them

A relational database under `CREATE TABLE`, `ALTER TABLE` and `CREATE INDEX`.

* `Table`, `Schema`: columns, keys, foreign keys, checks and indexes, with their names.
* `Database`: a schema with rows that satisfy it. A row that breaks a constraint, or a foreign key
  that refers to nothing, cannot be built.
* `Statement.alter`: what a statement does to the schema, if it is well formed there.
* `Statement.run`: what it does to a database. It fails if the schema refuses it, if a column is to
  get a type that its old one cannot be assigned to, or if the rows there are break the new schema.

The types and values are a parameter, and so are the casts that assignment can use (`Dialect`). A
statement works on one table, and while that table has no rows only the schema and the casts decide
whether it succeeds (`runAll_of_empty`, `alterAll_of_runAll`).
-/

namespace ScalableBooking.Ddl

variable {Ty Value : Type}

/-! ### Schemas -/

/-- The `DEFAULT` of a column. -/
inductive Default (Value : Type) where
  | nextval (sequence : String)
  | call (function : String)
  | value (v : Value)
deriving DecidableEq

structure Column (Ty Value : Type) where
  name : String
  ty : Ty
  notNull : Bool
  default : Option (Default Value)
deriving DecidableEq

/-- `PRIMARY KEY` or `UNIQUE`. -/
structure Key where
  name : String
  columns : List String
  primary : Bool
deriving DecidableEq

/-- `FOREIGN KEY (columns) REFERENCES table (refColumns)`, with no action on either change. -/
structure ForeignKey where
  name : String
  columns : List String
  table : String
  refColumns : List String
deriving DecidableEq

/-- `CHECK (column IN (allowed))`. -/
structure Check (Value : Type) where
  name : String
  column : String
  allowed : List Value
deriving DecidableEq

/-- A B-tree. -/
structure Index where
  name : String
  columns : List String
deriving DecidableEq

structure Table (Ty Value : Type) where
  name : String
  columns : List (Column Ty Value)
  keys : List Key
  foreignKeys : List ForeignKey
  checks : List (Check Value)
  indexes : List Index
  replicaIdentityFull : Bool
deriving DecidableEq

namespace Table

def column? (t : Table Ty Value) (name : String) : Option (Column Ty Value) :=
  t.columns.find? fun c => c.name = name

/-- The types of these columns, if they are all there. -/
def types? (t : Table Ty Value) (names : List String) : Option (List Ty) :=
  names.mapM fun name => (t.column? name).map Column.ty

/-- The sequences that columns of the table take their values from. -/
def sequences (t : Table Ty Value) : List String :=
  t.columns.filterMap fun c =>
    match c.default with
    | some (.nextval sequence) => some sequence
    | _ => none

/-- The names the table takes up in the schema: its own, and those of its sequences and indexes. A
key has an index of its name. -/
def relations (t : Table Ty Value) : List String :=
  t.name :: t.sequences ++ t.keys.map Key.name ++ t.indexes.map Index.name

/-- The names of the constraints. -/
def constraints (t : Table Ty Value) : List String :=
  t.keys.map Key.name ++ t.foreignKeys.map ForeignKey.name ++ t.checks.map Check.name

/-- The column gets another type. -/
def retype (t : Table Ty Value) (column : String) (ty : Ty) : Table Ty Value :=
  { t with columns := t.columns.map fun c => if c.name = column then { c with ty } else c }

/-- The table without the names of its constraints, and without what no column, key or index is
made of. -/
def shape (t : Table Ty Value) : Table Ty Value :=
  { t with
    keys := t.keys.map fun k => { k with name := "" }
    foreignKeys := t.foreignKeys.map fun fk => { fk with name := "" }
    checks := []
    replicaIdentityFull := false }

end Table

abbrev Schema (Ty Value : Type) := List (Table Ty Value)

namespace Schema

def table? (S : Schema Ty Value) (name : String) : Option (Table Ty Value) :=
  S.find? fun t => t.name = name

/-- The names that are taken. -/
def relations (S : Schema Ty Value) : List String := S.flatMap Table.relations

/-- The type of a column. -/
def type? (S : Schema Ty Value) (table column : String) : Option Ty :=
  (S.table? table).bind fun t => (t.column? column).map Column.ty

/-- The foreign key of the table refers to a key, column by column to one of the same type. -/
def Resolves [DecidableEq Ty] (S : Schema Ty Value) (t : Table Ty Value) (fk : ForeignKey) : Bool :=
  (S.table? fk.table).any fun ref =>
    ref.keys.any (fun k => k.columns = fk.refColumns) && (t.types? fk.columns).isSome &&
      t.types? fk.columns = ref.types? fk.refColumns

/-- No name is taken twice, and keys, indexes and foreign keys are made of columns there are. -/
def WellFormed [DecidableEq Ty] (S : Schema Ty Value) : Bool :=
  decide S.relations.Nodup && S.all fun t =>
    decide t.constraints.Nodup && t.keys.all (fun k => (t.types? k.columns).isSome) &&
      t.indexes.all (fun i => (t.types? i.columns).isSome) && t.foreignKeys.all (S.Resolves t)

/-- The table of this name is replaced, if there is one. -/
def modify (S : Schema Ty Value) (name : String) (f : Table Ty Value → Table Ty Value) :
    Option (Schema Ty Value) :=
  if (S.table? name).isSome then some (S.map fun t => if t.name = name then f t else t) else none

theorem modify_eq_some {S S' : Schema Ty Value} {name : String}
    {f : Table Ty Value → Table Ty Value} :
    S.modify name f = some S' ↔
      (S.table? name).isSome ∧ S.map (fun t => if t.name = name then f t else t) = S' := by
  rw [modify, Option.ite_none_right_eq_some, Option.some.injEq]

theorem isSome_table?_iff {S : Schema Ty Value} {name : String} :
    (S.table? name).isSome ↔ ∃ t ∈ S, t.name = name := by
  simp [table?]

/-- The same tables in any order, whatever their constraints are called. -/
def SameShape (S S' : Schema Ty Value) : Prop := (S.map Table.shape).Perm (S'.map Table.shape)

instance [DecidableEq Ty] [DecidableEq Value] (S S' : Schema Ty Value) :
    Decidable (S.SameShape S') :=
  inferInstanceAs (Decidable (List.Perm _ _))

end Schema

/-! ### Statements -/

inductive Statement (Ty Value : Type) where
  | createTable (ifNotExists : Bool) (table : Table Ty Value)
  | addForeignKey (table : String) (fk : ForeignKey)
  | createIndex (ifNotExists : Bool) (table : String) (index : Index)
  | setDataType (table column : String) (ty : Ty)
  | replicaIdentityFull (table : String)

/-- The table a statement works on. -/
def Statement.target : Statement Ty Value → String
  | createTable _ table => table.name
  | addForeignKey table _ | createIndex _ table _ | setDataType table _ _
  | replicaIdentityFull table => table

section Alter

variable [DecidableEq Ty] {S S' : Schema Ty Value} {st : Statement Ty Value} {name : String}
  {t : Table Ty Value}

/-- The schema after the statement. With `IF NOT EXISTS` a name that is taken is no failure. -/
def Statement.alter (S : Schema Ty Value) : Statement Ty Value → Option (Schema Ty Value)
  | createTable ifNotExists table =>
      if table.name ∈ S.relations then if ifNotExists then some S else none
      else (some (S ++ [table])).filter Schema.WellFormed
  | addForeignKey table fk =>
      (S.modify table fun t => { t with foreignKeys := t.foreignKeys ++ [fk] }).filter
        Schema.WellFormed
  | createIndex ifNotExists table index =>
      if index.name ∈ S.relations then if ifNotExists then some S else none
      else (S.modify table fun t => { t with indexes := t.indexes ++ [index] }).filter
        Schema.WellFormed
  | setDataType table column ty =>
      if (S.type? table column).isSome then
        (S.modify table fun t => t.retype column ty).filter Schema.WellFormed
      else none
  | replicaIdentityFull table => S.modify table fun t => { t with replicaIdentityFull := true }

/-- The schema after the statements. -/
def alterAll (S : Schema Ty Value) : List (Statement Ty Value) → Option (Schema Ty Value)
  | [] => some S
  | st :: sts => (st.alter S).bind fun S' => alterAll S' sts

/-- The types that values of a column have to be assigned from and to. -/
def Statement.casts (S : Schema Ty Value) : Statement Ty Value → List (Ty × Ty)
  | setDataType table column ty => (S.type? table column).toList.map fun old => (old, ty)
  | _ => []

def castsAll (S : Schema Ty Value) : List (Statement Ty Value) → List (Ty × Ty)
  | [] => []
  | st :: sts => st.casts S ++ (st.alter S).elim [] fun S' => castsAll S' sts

theorem alterAll_append (S : Schema Ty Value) (sts sts' : List (Statement Ty Value)) :
    alterAll S (sts ++ sts') = (alterAll S sts).bind fun S' => alterAll S' sts' := by
  induction sts generalizing S with
  | nil => rfl
  | cons st sts ih =>
    rw [List.cons_append, alterAll, alterAll, Option.bind_assoc]
    exact congrArg _ (funext fun S' => ih S')

namespace Statement

/-- What a statement can do to the schema: nothing, or it adds its table, or it changes it. -/
theorem alter_cases (h : st.alter S = some S') :
    S' = S ∨ (∃ t, t.name = st.target ∧ S' = S ++ [t]) ∨
      ∃ f : Table Ty Value → Table Ty Value, S.modify st.target f = some S' ∧
        ∀ t, (f t).name = t.name := by
  cases st with
  | createTable ifNotExists table =>
    simp only [alter] at h
    split at h
    · rw [Option.ite_none_right_eq_some] at h
      exact .inl (Option.some.inj h.2).symm
    · obtain ⟨heq, -⟩ := Option.filter_eq_some_iff.mp h
      exact .inr (.inl ⟨table, rfl, (Option.some.inj heq).symm⟩)
  | addForeignKey table fk =>
    exact .inr (.inr ⟨_, (Option.filter_eq_some_iff.mp h).1, fun _ => rfl⟩)
  | createIndex ifNotExists table index =>
    simp only [alter] at h
    split at h
    · rw [Option.ite_none_right_eq_some] at h
      exact .inl (Option.some.inj h.2).symm
    · exact .inr (.inr ⟨_, (Option.filter_eq_some_iff.mp h).1, fun _ => rfl⟩)
  -- the other statements change the table they name, and keep its name
  | setDataType table column ty =>
    simp only [alter, Option.ite_none_right_eq_some] at h
    exact .inr (.inr ⟨_, (Option.filter_eq_some_iff.mp h.2).1, fun _ => rfl⟩)
  | replicaIdentityFull table => exact .inr (.inr ⟨_, h, fun _ => rfl⟩)

/-- A table that is neither new nor changed was there. -/
theorem mem_of_alter (h : st.alter S = some S') (ht : t ∈ S') : t ∈ S ∨ t.name = st.target := by
  obtain rfl | ⟨new, hname, rfl⟩ | ⟨f, hmodify, hf⟩ := alter_cases h
  · exact .inl ht
  · obtain hold | hnew := List.mem_append.mp ht
    · exact .inl hold
    · rw [List.mem_singleton.mp hnew]
      exact .inr hname
  · obtain ⟨-, rfl⟩ := Schema.modify_eq_some.mp hmodify
    obtain ⟨t', ht', rfl⟩ := List.mem_map.mp ht
    split
    · rename_i hname
      exact .inr ((hf t').trans hname)
    · exact .inl ht'

/-- No statement drops a table. -/
theorem isSome_of_alter (h : st.alter S = some S') (ht : (S.table? name).isSome) :
    (S'.table? name).isSome := by
  rw [Schema.isSome_table?_iff] at ht ⊢
  obtain ⟨t, ht, rfl⟩ := ht
  obtain rfl | ⟨new, -, rfl⟩ | ⟨f, hmodify, hf⟩ := alter_cases h
  · exact ⟨t, ht, rfl⟩
  · exact ⟨t, List.mem_append_left _ ht, rfl⟩
  · obtain ⟨-, rfl⟩ := Schema.modify_eq_some.mp hmodify
    refine ⟨_, List.mem_map_of_mem ht, ?_⟩
    split
    · exact hf t
    · rfl

end Statement

end Alter

/-! ### Rows -/

/-- The values and casts of a database system. `fits` is about values other than `null`.
`assignment` gives the implicit or assignment cast from one type to another, if there is one. It may
fail on a value. -/
structure Dialect (Ty Value : Type) where
  null : Value
  fits : Value → Ty → Bool
  assignment : Ty → Ty → Option (Value → Option Value)

/-- A row, by the names of the columns. -/
abbrev Row (Value : Type) := String → Value

/-- The rows of every table. -/
abbrev Rows (Value : Type) := String → List (Row Value)

variable [DecidableEq Value] {D : Dialect Ty Value}

section Valid

variable (D)

/-- The row has a value for each column, and passes the checks. -/
def Table.Fits (t : Table Ty Value) (r : Row Value) : Prop :=
  (∀ c ∈ t.columns,
    if r c.name = D.null then c.notNull = false else D.fits (r c.name) c.ty = true) ∧
    ∀ c ∈ t.checks, r c.column = D.null ∨ r c.column ∈ c.allowed

/-- The two rows do not agree on the key. -/
def Key.Separates (k : Key) (r r' : Row Value) : Prop :=
  ∃ c ∈ k.columns, r c = D.null ∨ r' c = D.null ∨ r c ≠ r' c

/-- The row refers to one of the rows there are, or to nothing. -/
def ForeignKey.Refers (fk : ForeignKey) (refs : List (Row Value)) (r : Row Value) : Prop :=
  (∃ c ∈ fk.columns, r c = D.null) ∨ ∃ r' ∈ refs, fk.columns.map r = fk.refColumns.map r'

/-- The rows satisfy the schema. -/
def Valid (S : Schema Ty Value) (rows : Rows Value) : Prop :=
  ∀ t ∈ S, (∀ r ∈ rows t.name, t.Fits D r) ∧
    (∀ k ∈ t.keys, (rows t.name).Pairwise (k.Separates D)) ∧
    ∀ fk ∈ t.foreignKeys, ∀ r ∈ rows t.name, fk.Refers D (rows fk.table) r

instance (t : Table Ty Value) (r : Row Value) : Decidable (t.Fits D r) :=
  inferInstanceAs (Decidable (_ ∧ _))

instance (k : Key) (r r' : Row Value) : Decidable (k.Separates D r r') :=
  inferInstanceAs (Decidable (∃ c ∈ k.columns, _))

instance (fk : ForeignKey) (refs : List (Row Value)) (r : Row Value) :
    Decidable (fk.Refers D refs r) :=
  inferInstanceAs (Decidable (_ ∨ _))

instance (S : Schema Ty Value) (rows : Rows Value) : Decidable (Valid D S rows) :=
  inferInstanceAs (Decidable (∀ t ∈ S, _))

end Valid

/-- Tables without rows may be added or changed. -/
theorem Valid.of_tables {S S' : Schema Ty Value} {rows : Rows Value} (h : Valid D S rows)
    (hS : ∀ t ∈ S', t ∈ S ∨ rows t.name = []) : Valid D S' rows := by
  intro t ht
  obtain hold | hempty := hS t ht
  · exact h t hold
  · simp [hempty]

/-- A schema and rows that satisfy it. A table that is not there has none. -/
structure Database (D : Dialect Ty Value) where
  schema : Schema Ty Value
  rows : Rows Value
  valid : Valid D schema rows
  absent : ∀ name, schema.table? name = none → rows name = []

/-- The rows of tables there are. -/
def Schema.restrict (S : Schema Ty Value) (rows : Rows Value) : Rows Value := fun name =>
  if (S.table? name).isSome then rows name else []

omit [DecidableEq Value] in
theorem Schema.restrict_of_absent {S : Schema Ty Value} {rows : Rows Value} {name : String}
    (h : S.table? name = none) : S.restrict rows name = [] := by
  rw [restrict, h]
  rfl

/-- The database with this schema, if the rows satisfy it. -/
def Database.make? (D : Dialect Ty Value) (S : Schema Ty Value) (rows : Rows Value) :
    Option (Database D) :=
  if h : Valid D S (S.restrict rows) then
    some ⟨S, S.restrict rows, h, fun _ => Schema.restrict_of_absent⟩
  else none

theorem Database.schema_of_make? {S : Schema Ty Value} {rows : Rows Value} {db : Database D}
    (h : make? D S rows = some db) : db.schema = S := by
  obtain ⟨_, h⟩ := Option.dite_none_right_eq_some.mp h
  rw [← Option.some.inj h]

theorem Database.exists_make? {S : Schema Ty Value} {rows : Rows Value}
    (hrestrict : S.restrict rows = rows) (hvalid : Valid D S rows) :
    ∃ db, make? D S rows = some db ∧ db.schema = S ∧ db.rows = rows := by
  rw [← hrestrict] at hvalid
  exact ⟨_, dif_pos hvalid, rfl, hrestrict⟩

/-! ### Running statements -/

/-- A value can stay as it is, or an assignment has to cast it. -/
def Dialect.cast? [DecidableEq Ty] (D : Dialect Ty Value) (old ty : Ty) :
    Option (Value → Option Value) :=
  if old = ty then some some else D.assignment old ty

section Run

variable [DecidableEq Ty] {S S' : Schema Ty Value} {st : Statement Ty Value}
  {sts : List (Statement Ty Value)} {db db' : Database D}

/-- The dialect has these casts. -/
def Dialect.Has (D : Dialect Ty Value) (casts : List (Ty × Ty)) : Prop :=
  ∀ c ∈ casts, (D.cast? c.1 c.2).isSome

namespace Statement

/-- The rows after the statement: a column that changes its type has its values cast. -/
def convert (D : Dialect Ty Value) (S : Schema Ty Value) (rows : Rows Value) :
    Statement Ty Value → Option (Rows Value)
  | setDataType table column ty =>
      ((S.type? table column).bind fun old => D.cast? old ty).bind fun cast =>
        ((rows table).mapM fun r =>
          (if r column = D.null then some D.null else cast (r column)).map fun v =>
            Function.update r column v).map fun rs => Function.update rows table rs
  | _ => some rows

/-- The database after the statement. -/
def run (db : Database D) (st : Statement Ty Value) : Option (Database D) :=
  (st.alter db.schema).bind fun S => (st.convert D db.schema db.rows).bind fun rows =>
    Database.make? D S rows

end Statement

/-- The database after the statements, which are run in one transaction. -/
def runAll (db : Database D) : List (Statement Ty Value) → Option (Database D)
  | [] => some db
  | st :: sts => (st.run db).bind fun db' => runAll db' sts

/-- A statement that succeeds is one that the schema and the casts allow. -/
theorem Statement.alter_of_run (h : st.run db = some db') :
    st.alter db.schema = some db'.schema ∧ D.Has (st.casts db.schema) := by
  obtain ⟨S, halter, h⟩ := Option.bind_eq_some_iff.mp h
  obtain ⟨rows, hconvert, h⟩ := Option.bind_eq_some_iff.mp h
  rw [Database.schema_of_make? h]
  refine ⟨halter, ?_⟩
  cases st with
  | setDataType table column ty =>
    obtain ⟨cast, hcast, -⟩ := Option.bind_eq_some_iff.mp hconvert
    obtain ⟨old, hold, hcast⟩ := Option.bind_eq_some_iff.mp hcast
    simp [Dialect.Has, casts, hold, hcast]
  | _ => simp [Dialect.Has, casts]

/-- With no rows there is nothing to cast. -/
theorem Statement.convert_of_empty {rows : Rows Value} (halter : st.alter S = some S')
    (hcast : D.Has (st.casts S)) (hempty : rows st.target = []) :
    st.convert D S rows = some rows := by
  cases st with
  | setDataType table column ty =>
    obtain ⟨htype, -⟩ := Option.ite_none_right_eq_some.mp halter
    obtain ⟨old, hold⟩ := Option.isSome_iff_exists.mp htype
    obtain ⟨cast, hcast⟩ := Option.isSome_iff_exists.mp (hcast (old, ty) (by simp [casts, hold]))
    have hnil : rows table = [] := hempty
    simp [convert, hold, hcast, hnil]
  | _ => rfl

/-- A statement on a table without rows fails only if the schema or the casts do not allow it, and
leaves the rows as they are. -/
theorem Statement.run_of_empty (halter : st.alter db.schema = some S')
    (hcast : D.Has (st.casts db.schema)) (hempty : db.rows st.target = []) :
    ∃ db', st.run db = some db' ∧ db'.schema = S' ∧ db'.rows = db.rows := by
  -- the rows are those of tables there were, and so there are
  have hrestrict : S'.restrict db.rows = db.rows := by
    funext name
    rw [Schema.restrict]
    split
    · rfl
    · rename_i hno
      refine (db.absent name ?_).symm
      by_contra hne
      exact hno (isSome_of_alter halter (Option.isSome_iff_ne_none.mpr hne))
  have hvalid : Valid D S' db.rows := by
    refine db.valid.of_tables ?_
    intro t ht
    obtain hold | hname := mem_of_alter halter ht
    · exact .inl hold
    · rw [hname]
      exact .inr hempty
  rw [run, halter, Option.bind_some, convert_of_empty halter hcast hempty, Option.bind_some]
  exact Database.exists_make? hrestrict hvalid

/-- So do statements one after another. -/
theorem runAll_of_empty (halter : alterAll db.schema sts = some S')
    (hcast : D.Has (castsAll db.schema sts)) (hempty : ∀ st ∈ sts, db.rows st.target = []) :
    ∃ db', runAll db sts = some db' ∧ db'.schema = S' ∧ db'.rows = db.rows := by
  induction sts generalizing db with
  | nil =>
    cases halter
    exact ⟨db, rfl, rfl, rfl⟩
  | cons st sts ih =>
    obtain ⟨S₁, halter₁, halter⟩ := Option.bind_eq_some_iff.mp halter
    rw [castsAll, halter₁, Option.elim_some, Dialect.Has, List.forall_mem_append] at hcast
    obtain ⟨db₁, hrun, rfl, hrows⟩ :=
      Statement.run_of_empty halter₁ hcast.1 (hempty st List.mem_cons_self)
    -- the rows are the same, so the tables of the other statements still have none
    have hempty' : ∀ st' ∈ sts, db₁.rows st'.target = [] := by
      intro st' hst'
      rw [hrows]
      exact hempty st' (List.mem_cons_of_mem _ hst')
    obtain ⟨db', hrun', hschema, hrows'⟩ := ih halter hcast.2 hempty'
    refine ⟨db', ?_, hschema, hrows'.trans hrows⟩
    rw [runAll, hrun, Option.bind_some, hrun']

/-- Statements that succeed are ones that the schema and the casts allow. -/
theorem alterAll_of_runAll (h : runAll db sts = some db') :
    alterAll db.schema sts = some db'.schema ∧ D.Has (castsAll db.schema sts) := by
  induction sts generalizing db with
  | nil =>
    cases h
    exact ⟨rfl, by simp [Dialect.Has, castsAll]⟩
  | cons st sts ih =>
    obtain ⟨db₁, hrun, h⟩ := Option.bind_eq_some_iff.mp h
    obtain ⟨halter, hcast⟩ := Statement.alter_of_run hrun
    obtain ⟨halter', hcast'⟩ := ih h
    rw [alterAll, castsAll, halter, Option.bind_some, Option.elim_some, Dialect.Has,
      List.forall_mem_append]
    exact ⟨halter', hcast, hcast'⟩

end Run

end ScalableBooking.Ddl
