import ScalableBooking.Lib.RelyGuarantee

/-!
# Linearizability of database programs

A process is specified by what it does when it runs alone in one moment (`Atomic`): a change of
the committed database, and the outcome that goes with it. A run of the machine is linearizable if
its processes can be put in an order in which their atomic versions, one after another, take the
database from its first state to its last with the same outcomes, and which agrees with the time:
each process has its place between its first and its last step (`Linearization`).

As in the rely-guarantee rules, the proof looks at one program at a time. `Prog.Linear` is the
obligation, by recursion on the program: along every way through it there is at most one statement
at which it takes effect, this statement does what the atomic version does, no other one changes
the committed database, and the program ends with the outcome it had there. That the connection
may break at any time before is the one exception.

The invariant that the committed database has at every statement comes from `Sound`. In addition
no row is ever lost.
-/

namespace ScalableBooking.ReadCommitted

variable {G : Signature} {α β ρ : Type}

/-! ### Specifications -/

/-- How a process ends. -/
abbrev Outcome (G : Signature) (ρ : Type) := Except G.Error ρ

/-- What a process does in one moment: the database before and after, and its outcome. -/
abbrev Atomic (G : Signature) (ρ : Type) := Db G → Db G → Outcome G ρ → Prop

/-- A statement takes the committed database from `db` to `db'`. Either nothing happens, or the
process, which has not taken effect yet, does so. -/
inductive Decides (A : Atomic G ρ) (db db' : Db G) :
    Option (Outcome G ρ) → Option (Outcome G ρ) → Prop where
  | later (d : Option (Outcome G ρ)) (hdb : db' = db) : Decides A db db' d d
  | here (o : Outcome G ρ) (ho : A db db' o) : Decides A db db' none (some o)

/-- What can become of the database `seen`, as the discipline says. No row of it is lost. -/
def Discipline.Reaches (R : Discipline G) (seen db : Db G) : Prop :=
  R.rely seen db ∧ ∀ k, (seen k).isSome → (db k).isSome

theorem Discipline.reaches_refl (R : Discipline G) (db : Db G) : R.Reaches db db :=
  ⟨R.rely_refl db, fun _ => id⟩

theorem Discipline.Reaches.trans {R : Discipline G} {db db' db'' : Db G} (h : R.Reaches db db')
    (h' : R.Reaches db' db'') : R.Reaches db db'' :=
  ⟨R.rely_trans _ _ _ h.1 h'.1, fun k hk => h'.2 k (h.2 k hk)⟩

/-! ### Obligations -/

/-- The process may end with the error `e`: its connection is broken, or this is its outcome. -/
def MayFail (d : Option (Outcome G ρ)) (e : G.Error) : Prop := e = G.fault ∨ d = some (.error e)

/-- The obligations of a transaction body. `d` is the outcome that the process has taken effect
with, if it has. -/
def Tx.Linear (R : Discipline G) (A : Atomic G ρ) (start : ℕ)
    (K : Option (Outcome G ρ) → α → Db G → Writes G → Prop) :
    Tx G α → Option (Outcome G ρ) → Db G → Writes G → Prop
  | ret a, d, seen, w => K d a seen w
  | fail e, d, _, _ => MayFail d e
  | now next, d, seen, w => ∀ t, (next t).Linear R A start K d seen w
  | update k cond set next, d, seen, w =>
      ∀ db, R.inv db → R.Reaches seen db → w.Agrees db →
        (∀ row, w.overlay db k = some row → cond row = true →
          (next (some (set row))).Linear R A start K d db (w.write db k (set row))) ∧
        ((∀ row, w.overlay db k = some row → cond row = false) →
          ∃ d', Decides A db db d d' ∧ (next none).Linear R A start K d' db w)
  | insert refs row next, d, seen, w =>
      ∀ db n, R.inv db → R.Reaches seen db → w.Agrees db →
        (∀ k ∈ refs, (w.overlay db k).isSome) → db (G.serial n) = none →
        w (G.serial n) = none →
          (next n (row n start)).Linear R A start K d db (w.write db (G.serial n) (row n start))

/-- What a transaction owes when it commits the writes `w`. -/
def CommitLinear (R : Discipline G) (A : Atomic G ρ)
    (K : Option (Outcome G ρ) → α → Db G → Prop) (d : Option (Outcome G ρ)) (a : α) (seen : Db G)
    (w : Writes G) : Prop :=
  ∀ db, R.inv db → R.Reaches seen db → w.Agrees db →
    ∃ d', Decides A db (w.overlay db) d d' ∧ K d' a (w.overlay db)

/-- The obligations of a program. -/
def Prog.Linear (R : Discipline G) (A : Atomic G ρ)
    (K : Option (Outcome G ρ) → α → Db G → Prop) :
    Prog G α → Option (Outcome G ρ) → Db G → Prop
  | ret a, d, seen => K d a seen
  | fail e, d, _ => MayFail d e
  | now next, d, seen => ∀ t, (next t).Linear R A K d seen
  | select k cond next, d, seen =>
      ∀ db, R.inv db → R.Reaches seen db →
        ∃ d', Decides A db db d d' ∧ (next ((db k).filter cond)).Linear R A K d' db
  | effect _ next, d, seen => ∀ r, (next r).Linear R A K d seen
  | transaction body next, d, seen =>
      ∀ start, body.Linear R A start
        (CommitLinear R A fun d' b seen' => (next b).Linear R A K d' seen') d seen Writes.empty

section Bind

variable {R : Discipline G} {A : Atomic G ρ}

/-- The obligations of the first part of a body are those of the whole, with the rest as what
comes next. -/
@[simp] theorem Tx.linear_bind {start : ℕ}
    {K : Option (Outcome G ρ) → β → Db G → Writes G → Prop} (x : Tx G α) (f : α → Tx G β)
    (d : Option (Outcome G ρ)) (seen : Db G) (w : Writes G) :
    (x.bind f).Linear R A start K d seen w ↔
      x.Linear R A start (fun d' a seen' w' => (f a).Linear R A start K d' seen' w') d seen w := by
  induction x generalizing d seen w with
  | ret a => exact Iff.rfl
  | fail e => exact Iff.rfl
  | now next ih => simp only [bind, Linear, ih]
  | update k cond set next ih => simp only [bind, Linear, ih]
  | insert refs row next ih => simp only [bind, Linear, ih]

@[simp] theorem Prog.linear_bind {K : Option (Outcome G ρ) → β → Db G → Prop} (x : Prog G α)
    (f : α → Prog G β) (d : Option (Outcome G ρ)) (seen : Db G) :
    (x.bind f).Linear R A K d seen ↔
      x.Linear R A (fun d' a seen' => (f a).Linear R A K d' seen') d seen := by
  induction x generalizing d seen with
  | ret a => exact Iff.rfl
  | fail e => exact Iff.rfl
  | now next ih => simp only [bind, Linear, ih]
  | select k cond next ih => simp only [bind, Linear, ih]
  | effect x next ih => simp only [bind, Linear, ih]
  | transaction body next ih => simp only [bind, Linear, ih]

end Bind

/-! ### The machine and its atomic version -/

/-- A program that returns has taken effect with what it returns. -/
def Returned (d : Option (Outcome G ρ)) (a : ρ) (_ : Db G) : Prop := d = some (.ok a)

/-- The obligations of a process wherever it stands. -/
def Proc.Linear (R : Discipline G) (A : Atomic G ρ) :
    Proc G ρ → Option (Outcome G ρ) → Db G → Writes G → Prop
  | outside prog, d, seen, w => w = Writes.empty ∧ prog.Linear R A Returned d seen
  | inside t _ body next, d, seen, w =>
      body.Linear R A t
        (CommitLinear R A fun d' b seen' => (next b).Linear R A Returned d' seen') d seen w

section Machine

variable {P : Type} [DecidableEq P] {R : Discipline G} {C : P → Contract G}
  {Q : P → ρ → Past G → Prop} {log : P → List (Db G × Db G)} {A : P → Atomic G ρ}
  {s s' : State G P ρ} {p : P} {e : Event G P} {done : P → Option (Outcome G ρ)}

/-- The obligations of the process `p` in the state `s`, should it go on at `proc`. -/
def State.LinearAt (R : Discipline G) (A : P → Atomic G ρ) (s : State G P ρ) (p : P)
    (d : Option (Outcome G ρ)) (proc : Proc G ρ) : Prop :=
  ∃ seen, R.Reaches seen s.db ∧ proc.Linear R (A p) d seen (s.own p)

/-- Every process keeps its obligations, and those in `done` have taken effect. -/
def State.Linear (R : Discipline G) (A : P → Atomic G ρ) (s : State G P ρ)
    (done : P → Option (Outcome G ρ)) : Prop :=
  ∀ p, s.LinearAt R A p (done p) (s.procs p)

/-- What the atomic version does at the event `e`: nothing, or the process that makes the step
takes effect. -/
inductive AtomicStep (A : P → Atomic G ρ) (e : Event G P) (db db' : Db G)
    (done : P → Option (Outcome G ρ)) : (P → Option (Outcome G ρ)) → Prop where
  | nothing (hdb : db' = db) : AtomicStep A e db db' done done
  | effect (p : P) (o : Outcome G ρ) (he : e.actor = some p) (hp : done p = none)
      (ho : A p db db' o) : AtomicStep A e db db' done (Function.update done p (some o))

/-- A process decides, and with it the atomic version makes a step. -/
theorem Decides.atomicStep {db db' : Db G} {d' : Option (Outcome G ρ)}
    (h : Decides (A p) db db' (done p) d') (he : e.actor = some p) :
    AtomicStep A e db db' done (Function.update done p d') := by
  generalize hd : done p = d at h
  cases h with
  | later d hdb =>
    rw [← hd, Function.update_eq_self]
    exact .nothing hdb
  | here o ho => exact .effect p o he hd ho

namespace State

theorem Linear.of_initial {db : Db G} {nextId clock : ℕ} {code : P → Prog G ρ}
    (h : ∀ p, (code p).Linear R (A p) Returned none db) :
    (State.initial db nextId clock code).Linear R A fun _ => none :=
  fun p => ⟨db, R.reaches_refl db, rfl, h p⟩

/-- Another process makes a step: what `p` holds and where it stands are as before. -/
theorem LinearAt.frame {d : Option (Outcome G ρ)} (h : s.LinearAt R A p d (s.procs p))
    (hsound : Sound R C Q log s) (hs : s.step e = some s') (hp : e.actor ≠ some p) :
    s'.LinearAt R A p d (s'.procs p) := by
  obtain ⟨seen, hseen, hlin⟩ := h
  refine ⟨seen, hseen.trans ⟨hsound.rely_step hs, fun k hk => isSome_step hs hk⟩, ?_⟩
  rw [(step_frame hs).2 p hp, step_own_of_next (hsound.fresh _ (Nat.le_refl _)) hs hp]
  exact hlin

/-- `p` goes on without a commit. -/
theorem LinearAt.goto {d : Option (Outcome G ρ)} {seen : Db G} {proc : Proc G ρ}
    (hseen : R.Reaches seen s.db) (h : proc.Linear R (A p) d seen (s.own p)) :
    (s.goto p proc).LinearAt R A p d ((s.goto p proc).procs p) := by
  rw [goto_procs_self]
  exact ⟨seen, hseen, h⟩

/-- `p` has its transaction undone. -/
theorem LinearAt.rollback {d : Option (Outcome G ρ)} {err : G.Error} (nextId : ℕ)
    (h : MayFail d err) :
    (({ s with nextId := nextId }.rollback p).goto p (.outside (.fail err))).LinearAt R A p d
      ((({ s with nextId := nextId }.rollback p).goto p (.outside (.fail err))).procs p) :=
  .goto (R.reaches_refl s.db) ⟨own_dirtyWithout_self (s := s) rfl, h⟩

/-- One statement of a transaction. -/
theorem LinearAt.stepTx {d : Option (Outcome G ρ)} {t : ℕ} {scanned : Bool} {body : Tx G β}
    {next : β → Prog G ρ} (hsound : Sound R C Q log s)
    (h : s.LinearAt R A p d (.inside t scanned body next))
    (hs : s.stepTx p t scanned body next = some s') :
    ∃ d', Decides (A p) s.db s'.db d d' ∧ s'.LinearAt R A p d' (s'.procs p) := by
  obtain ⟨seen, hseen, hlin⟩ := h
  cases body with
  | ret b =>
    cases hs
    -- the commit: what `p` holds are its writes, and its view is what it leaves
    obtain ⟨d', hd, hnext⟩ := hlin s.db hsound.inv hseen (s.own_agrees p)
    rw [s.overlay_own p] at hd hnext
    exact ⟨d', hd, .goto (R.reaches_refl _) ⟨own_dirtyWithout_self (s := s) rfl, hnext⟩⟩
  | fail err =>
    cases hs
    exact ⟨d, .later d rfl, .rollback s.nextId hlin⟩
  | now k =>
    cases hs
    exact ⟨d, .later d rfl, .goto hseen (hlin s.clock)⟩
  | update k cond set cont =>
    obtain ⟨hsome, hnone⟩ := hlin s.db hsound.inv hseen (s.own_agrees p)
    rw [s.overlay_own p] at hsome hnone
    simp only [State.stepTx] at hs
    cases hrow : (s.view p k).filter cond with
    | none =>
      rw [hrow] at hs
      simp only [] at hs
      split at hs
      · cases hs
      · cases hs
        have hno : ∀ row, s.view p k = some row → cond row = false := by
          intro row hview
          rw [hview, Option.filter_some] at hrow
          simpa using hrow
        -- a miss is a moment at which the process may take effect
        obtain ⟨d', hd, hnext⟩ := hnone hno
        exact ⟨d', hd, .goto (R.reaches_refl _) hnext⟩
    | some row =>
      rw [hrow] at hs
      obtain ⟨hview, hcond⟩ := Option.filter_eq_some_iff.mp hrow
      simp only [] at hs
      split at hs
      · cases hs
        exact ⟨d, .later d rfl, .goto hseen hlin⟩
      · split at hs
        · cases hs
        · cases hs
          refine ⟨d, .later d rfl, .goto (R.reaches_refl _) ?_⟩
          rw [own_write_self]
          exact hsome row hview hcond
  | insert refs row cont =>
    simp only [State.stepTx] at hs
    split at hs
    · rename_i hkeys
      cases hs
      obtain ⟨hview, hrefs⟩ := hkeys
      have hdb := db_of_view (Option.isNone_iff_eq_none.mp hview)
      have hown := own_of_none (p := p) (hsound.fresh s.nextId (Nat.le_refl _) hdb)
      rw [← s.overlay_own p] at hrefs
      refine ⟨d, .later d rfl, .goto (R.reaches_refl _) ?_⟩
      rw [own_write_self]
      exact hlin s.db s.nextId hsound.inv hseen (s.own_agrees p) hrefs hdb hown
    · cases hs
      exact ⟨d, .later d rfl, .rollback (s.nextId + 1) (.inl rfl)⟩

/-- A step of `p` itself: it takes effect, or leaves the committed database alone. -/
theorem LinearAt.step {d : Option (Outcome G ρ)} (h : s.LinearAt R A p d (s.procs p))
    (hsound : Sound R C Q log s) (hs : s.step e = some s') (he : e.actor = some p) :
    ∃ d', Decides (A p) s.db s'.db d d' ∧ s'.LinearAt R A p d' (s'.procs p) := by
  cases e with
  | tick t => cases he
  | run q =>
    cases he
    simp only [State.step] at hs
    cases hp : s.procs p with
    | inside t scanned body next =>
      rw [hp] at hs h
      exact h.stepTx hsound hs
    | outside prog =>
      rw [hp] at hs h
      obtain ⟨seen, hseen, hown, hlin⟩ := h
      cases prog with
      | ret a => cases hs
      | fail err => cases hs
      | now next =>
        cases hs
        exact ⟨d, .later d rfl, .goto hseen ⟨hown, hlin s.clock⟩⟩
      | select k cond next =>
        cases hs
        obtain ⟨d', hd, hnext⟩ := hlin s.db hsound.inv hseen
        exact ⟨d', hd, .goto (R.reaches_refl _) ⟨hown, hnext⟩⟩
      | effect x next => cases hs
      | transaction body next =>
        cases hs
        refine ⟨d, .later d rfl, .goto hseen ?_⟩
        rw [hown]
        exact hlin s.clock
  | reply q r =>
    cases he
    simp only [State.step] at hs
    split at hs
    · rename_i x next hp
      cases hs
      rw [hp] at h
      obtain ⟨seen, hseen, hown, hlin⟩ := h
      exact ⟨d, .later d rfl, .goto hseen ⟨hown, hlin r⟩⟩
    · cases hs
  | fault q =>
    cases he
    simp only [State.step] at hs
    split at hs
    · rename_i hp
      cases hs
      rw [hp] at h
      obtain ⟨seen, hseen, hown, -⟩ := h
      exact ⟨d, .later d rfl, .goto hseen ⟨hown, .inl rfl⟩⟩
    · rename_i hp
      cases hs
      rw [hp] at h
      obtain ⟨seen, hseen, hown, -⟩ := h
      exact ⟨d, .later d rfl, .goto hseen ⟨hown, .inl rfl⟩⟩
    · cases hs
      exact ⟨d, .later d rfl, .rollback s.nextId (.inl rfl)⟩
    · cases hs

/-- **The simulation.** Every step of the machine is a step of its atomic version, or none. -/
theorem Linear.step (h : s.Linear R A done) (hsound : Sound R C Q log s)
    (hs : s.step e = some s') :
    ∃ done', AtomicStep A e s.db s'.db done done' ∧ s'.Linear R A done' := by
  cases he : e.actor with
  | none =>
    obtain hdb | ⟨p, -, rfl, -⟩ := hsound.db_step hs
    · refine ⟨done, .nothing hdb, fun q => (h q).frame hsound hs ?_⟩
      rw [he]
      simp
    · cases he
  | some p =>
    obtain ⟨d', hd, hp⟩ := (h p).step hsound hs he
    refine ⟨_, hd.atomicStep he, fun q => ?_⟩
    by_cases hq : q = p
    · subst hq
      rw [Function.update_self]
      exact hp
    · rw [Function.update_of_ne hq]
      refine (h q).frame hsound hs ?_
      rw [he]
      exact fun heq => hq (Option.some.inj heq).symm

end State

end Machine

/-! ### Orders -/

section Orders

variable {P : Type} {A : P → Atomic G ρ} {s s' : State G P ρ} {p : P} {e : Event G P}

/-- How the process has ended, if it has. -/
def Proc.outcome? : Proc G ρ → Option (Outcome G ρ)
  | outside (.ret a) => some (.ok a)
  | outside (.fail e) => some (.error e)
  | _ => none

/-- The atomic versions in `order`, one after another, lead from `db` to `db'`. -/
def Executes (A : P → Atomic G ρ) (db : Db G) : List (P × Outcome G ρ) → Db G → Prop
  | [], db' => db' = db
  | x :: order, db' => ∃ db₁, A x.1 db db₁ x.2 ∧ Executes A db₁ order db'

/-- The process `p` makes one of these steps. -/
def Acts (p : P) (es : List (Event G P)) : Prop := ∃ e ∈ es, e.actor = some p

/-- Wherever the events are cut in two, the order can be cut such that each process before the
cut has made a step by then, and each one behind it makes one later. -/
def Placed (es : List (Event G P)) (order : List (P × Outcome G ρ)) : Prop :=
  ∀ es₁ es₂, es = es₁ ++ es₂ → ∃ order₁ order₂, order = order₁ ++ order₂ ∧
    (∀ x ∈ order₁, Acts x.1 es₁) ∧ ∀ x ∈ order₂, Acts x.1 es₂

/-- A linearization of the run from `s` to `s'` with the events `es`. A process whose connection
broke may have its place in it, or none. -/
structure Linearization (A : P → Atomic G ρ) (s : State G P ρ) (es : List (Event G P))
    (s' : State G P ρ) (order : List (P × Outcome G ρ)) : Prop where
  nodup : (order.map Prod.fst).Nodup
  executes : Executes A s.db order s'.db
  ended : ∀ p o, (s'.procs p).outcome? = some o → o ≠ .error G.fault → (p, o) ∈ order
  placed : Placed es order

theorem Acts.cons {es : List (Event G P)} (h : Acts p es) (e : Event G P) : Acts p (e :: es) := by
  obtain ⟨e', he', hp⟩ := h
  exact ⟨e', List.mem_cons_of_mem e he', hp⟩

theorem not_acts_nil : ¬Acts p ([] : List (Event G P)) := by
  rintro ⟨e, he, -⟩
  exact List.not_mem_nil he

theorem Placed.acts {es : List (Event G P)} {order : List (P × Outcome G ρ)} (h : Placed es order) :
    ∀ x ∈ order, Acts x.1 es := by
  obtain ⟨order₁, order₂, rfl, h₁, h₂⟩ := h [] es rfl
  intro x hx
  obtain hx | hx := List.mem_append.mp hx
  · exact absurd (h₁ x hx) not_acts_nil
  · exact h₂ x hx

/-- The processes that take effect at the first event come first. -/
theorem Placed.prepend {es : List (Event G P)} {order : List (P × Outcome G ρ)}
    (h : Placed es order) (xs : List (P × Outcome G ρ)) (hxs : ∀ x ∈ xs, e.actor = some x.1) :
    Placed (e :: es) (xs ++ order) := by
  intro es₁ es₂ hes
  have hhere : ∀ x ∈ xs, ∀ es' : List (Event G P), Acts x.1 (e :: es') :=
    fun x hx es' => ⟨e, List.mem_cons_self, hxs x hx⟩
  cases es₁ with
  | nil =>
    rw [List.nil_append] at hes
    subst hes
    refine ⟨[], xs ++ order, rfl, fun x hx => absurd hx List.not_mem_nil, ?_⟩
    intro x hx
    obtain hx | hx := List.mem_append.mp hx
    · exact hhere x hx es
    · exact (h.acts x hx).cons e
  | cons e' es₁ =>
    rw [List.cons_append, List.cons.injEq] at hes
    obtain ⟨rfl, rfl⟩ := hes
    obtain ⟨order₁, order₂, rfl, h₁, h₂⟩ := h es₁ es₂ rfl
    refine ⟨xs ++ order₁, order₂, (List.append_assoc ..).symm, ?_, h₂⟩
    intro x hx
    obtain hx | hx := List.mem_append.mp hx
    · exact hhere x hx es₁
    · exact (h₁ x hx).cons e

/-- **Real time.** What has ended before another process begins comes before it in the order. -/
theorem Linearization.before {es₁ es₂ : List (Event G P)} {order : List (P × Outcome G ρ)}
    (h : Linearization A s (es₁ ++ es₂) s' order) :
    ∃ order₁ order₂, order = order₁ ++ order₂ ∧
      (∀ x ∈ order, ¬Acts x.1 es₂ → x ∈ order₁) ∧ ∀ x ∈ order, ¬Acts x.1 es₁ → x ∈ order₂ := by
  obtain ⟨order₁, order₂, rfl, h₁, h₂⟩ := h.placed es₁ es₂ rfl
  refine ⟨order₁, order₂, rfl, ?_, ?_⟩
  · intro x hx hnot
    exact (List.mem_append.mp hx).resolve_right fun hx₂ => hnot (h₂ x hx₂)
  · intro x hx hnot
    exact (List.mem_append.mp hx).resolve_left fun hx₁ => hnot (h₁ x hx₁)

end Orders

section Machine

variable {P : Type} [DecidableEq P] {R : Discipline G} {C : P → Contract G}
  {Q : P → ρ → Past G → Prop} {log : P → List (Db G × Db G)} {A : P → Atomic G ρ}
  {s s' : State G P ρ} {p : P} {done : P → Option (Outcome G ρ)}

/-- A process that has ended has taken effect with its outcome, or its connection broke. -/
theorem State.Linear.outcome (h : s.Linear R A done) {o : Outcome G ρ}
    (ho : (s.procs p).outcome? = some o) (hfault : o ≠ .error G.fault) : done p = some o := by
  obtain ⟨seen, -, hlin⟩ := h p
  cases hp : s.procs p with
  | inside t scanned body next =>
    rw [hp] at ho
    cases ho
  | outside prog =>
    rw [hp] at ho hlin
    cases prog with
    | ret a =>
      cases ho
      exact hlin.2
    | fail err =>
      cases ho
      exact hlin.2.resolve_left fun heq => hfault (congrArg Except.error heq)
    | _ => cases ho

/-- What has taken effect stays so, and is how the process ends. -/
theorem State.Linear.outcome_eq (h : s.Linear R A done) (hsound : Sound R C Q log s)
    {es : List (Event G P)} (hrun : s.run es = some s') {o o' : Outcome G ρ}
    (hdone : done p = some o') (ho : (s'.procs p).outcome? = some o)
    (hfault : o ≠ .error G.fault) : o' = o := by
  induction es generalizing s done log with
  | nil =>
    cases hrun
    exact Option.some.inj (hdone.symm.trans (h.outcome ho hfault))
  | cons e es ih =>
    obtain ⟨s₁, hs, hrun⟩ := Option.bind_eq_some_iff.mp hrun
    obtain ⟨done₁, hatomic, h₁⟩ := h.step hsound hs
    refine ih h₁ (hsound.step hs) hrun ?_
    cases hatomic with
    | nothing hdb => exact hdone
    | effect q o'' he hq ho'' =>
      have hne : p ≠ q := by
        rintro rfl
        rw [hdone] at hq
        cases hq
      rw [Function.update_of_ne hne, hdone]

/-- So there is an event of the run at which its atomic version ends as it has. -/
theorem State.Linear.exists_effect (h : s.Linear R A done) (hsound : Sound R C Q log s)
    {es : List (Event G P)} (hrun : s.run es = some s') (hnone : done p = none) {o : Outcome G ρ}
    (ho : (s'.procs p).outcome? = some o) (hfault : o ≠ .error G.fault) :
    ∃ es₁ e es₂ s₁ s₂, es = es₁ ++ e :: es₂ ∧ s.run es₁ = some s₁ ∧ s₁.step e = some s₂ ∧
      s₂.run es₂ = some s' ∧ e.actor = some p ∧ A p s₁.db s₂.db o := by
  induction es generalizing s done log with
  | nil =>
    cases hrun
    have hdone := h.outcome ho hfault
    rw [hnone] at hdone
    cases hdone
  | cons e es ih =>
    obtain ⟨s₁, hs, hrun⟩ := Option.bind_eq_some_iff.mp hrun
    obtain ⟨done₁, hatomic, h₁⟩ := h.step hsound hs
    -- either `p` takes effect here, or it still has to
    have hlater : done₁ p = none → ∃ es₁ e' es₂ s₁ s₂, e :: es = es₁ ++ e' :: es₂ ∧
        s.run es₁ = some s₁ ∧ s₁.step e' = some s₂ ∧ s₂.run es₂ = some s' ∧
          e'.actor = some p ∧ A p s₁.db s₂.db o := by
      intro hnone₁
      obtain ⟨es₁, e', es₂, s₂, s₃, rfl, hrun₁, hs₂, hrun₂, he', ho'⟩ :=
        ih h₁ (hsound.step hs) hrun hnone₁
      exact ⟨e :: es₁, e', es₂, s₂, s₃, rfl, Option.bind_eq_some_iff.mpr ⟨s₁, hs, hrun₁⟩, hs₂,
        hrun₂, he', ho'⟩
    cases hatomic with
    | nothing hdb => exact hlater hnone
    | effect q o' he hq ho' =>
      by_cases hqp : p = q
      · subst hqp
        -- what has taken effect stays, so this is the outcome at the end
        refine ⟨[], e, es, s, s₁, rfl, rfl, hs, hrun, he, ?_⟩
        rwa [← h₁.outcome_eq (hsound.step hs) hrun (Function.update_self ..) ho hfault]
      · exact hlater (by rw [Function.update_of_ne hqp, hnone])

/-- What a run of the atomic version has in common with one of the machine. -/
theorem State.Linear.exists_order (h : s.Linear R A done) (hsound : Sound R C Q log s)
    {es : List (Event G P)} (hrun : s.run es = some s') :
    ∃ order done', s'.Linear R A done' ∧ (order.map Prod.fst).Nodup ∧
      Executes A s.db order s'.db ∧ Placed es order ∧ (∀ x ∈ order, done x.1 = none) ∧
      ∀ p o, done' p = some o → done p = some o ∨ (p, o) ∈ order := by
  induction es generalizing s done log with
  | nil =>
    cases hrun
    refine ⟨[], done, h, List.nodup_nil, rfl, ?_, by simp, fun p o => Or.inl⟩
    intro es₁ es₂ hes
    exact ⟨[], [], rfl, by simp, by simp⟩
  | cons e es ih =>
    obtain ⟨s₁, hs, hrun⟩ := Option.bind_eq_some_iff.mp hrun
    obtain ⟨done₁, hatomic, h₁⟩ := h.step hsound hs
    obtain ⟨order, done', hlin, hnodup, hexec, hplaced, hnew, hdone⟩ := ih h₁ (hsound.step hs) hrun
    cases hatomic with
    | nothing hdb =>
      rw [hdb] at hexec
      exact ⟨order, done', hlin, hnodup, hexec, hplaced.prepend [] (by simp), hnew, hdone⟩
    | effect p o he hp ho =>
      -- `p` takes effect here, so it does not do so later
      have hnot : p ∉ order.map Prod.fst := by
        intro hmem
        obtain ⟨x, hx, rfl⟩ := List.mem_map.mp hmem
        have := hnew x hx
        rw [Function.update_self] at this
        cases this
      refine ⟨(p, o) :: order, done', hlin, List.nodup_cons.mpr ⟨hnot, hnodup⟩, ⟨s₁.db, ho, hexec⟩,
        hplaced.prepend [(p, o)] (by simpa using he), ?_, ?_⟩
      · intro x hx
        obtain rfl | hx := List.mem_cons.mp hx
        · exact hp
        · have hne : x.1 ≠ p := fun heq => hnot (heq ▸ List.mem_map_of_mem hx)
          have hx₁ := hnew x hx
          rwa [Function.update_of_ne hne] at hx₁
      · intro q o' hq
        obtain hq | hq := hdone q o' hq
        · by_cases hqp : q = p
          · subst hqp
            rw [Function.update_self, Option.some.injEq] at hq
            subst hq
            exact .inr List.mem_cons_self
          · rw [Function.update_of_ne hqp] at hq
            exact .inl hq
        · exact .inr (List.mem_cons_of_mem _ hq)

/-- **Linearizability.** If every program takes effect at one of its statements, as its atomic
version does, every run has a linearization. -/
theorem exists_linearization {db : Db G} {nextId clock : ℕ} {code : P → Prog G ρ}
    (hsound : Sound R C Q (fun _ => []) (State.initial db nextId clock code))
    (hcode : ∀ p, (code p).Linear R (A p) Returned none db) {es : List (Event G P)}
    (hrun : (State.initial db nextId clock code).run es = some s) :
    ∃ order, Linearization A (State.initial db nextId clock code) es s order := by
  obtain ⟨order, done, hlin, hnodup, hexec, hplaced, -, hdone⟩ :=
    (State.Linear.of_initial hcode).exists_order hsound hrun
  refine ⟨order, hnodup, hexec, ?_, hplaced⟩
  intro p o ho hfault
  obtain hnone | hmem := hdone p o (hlin.outcome ho hfault)
  · cases hnone
  · exact hmem

end Machine

end ScalableBooking.ReadCommitted
