import ScalableBooking.Lib.Steps

/-!
# Rely-guarantee reasoning about database programs

How a property of every reachable state of the machine is proved by looking at one program at
a time. A `Discipline` is what all processes agree on: an invariant of the committed database,
and what may change from one committed database to a later one. A `Contract` is what one
process promises on top: what its commits do, when it performs an effect, and how it fails.
Both speak about the `Past` of the process: the database it saw last, the time it last knew of,
and its own commits.

`Tx.Safe` and `Prog.Safe` are the proof obligations of a program, by recursion on it. Before
each statement the committed database may be any one that satisfies the invariant and that the
last one seen can have become. Inside a transaction it agrees, moreover, with the rows the
transaction holds, since nobody else can commit those.

`Sound` is the invariant of the machine, and `Sound.step` its preservation. What a run gives
is collected in `Sound.run` and `Sound.db_step`.
-/

namespace ScalableBooking.ReadCommitted

variable {G : Signature} {α β ρ : Type}

/-! ### Obligations -/

/-- What all processes keep: an invariant of the committed database, and a preorder that
contains every commit. -/
structure Discipline (G : Signature) where
  inv : Db G → Prop
  rely : Db G → Db G → Prop
  rely_refl : ∀ db, rely db db
  rely_trans : ∀ db db' db'', rely db db' → rely db' db'' → rely db db''

/-- What a process can look back on: a committed database that was there, a time that has
come, and its own commits, oldest first, each with the database before and after. -/
structure Past (G : Signature) where
  seen : Db G
  time : ℕ
  commits : List (Db G × Db G)

namespace Past

/-- Having seen the committed database `db`. -/
def sees (κ : Past G) (db : Db G) : Past G := { κ with seen := db }

/-- Having read the clock. -/
def reads (κ : Past G) (t : ℕ) : Past G := { κ with time := t }

/-- Having taken the database from `db` to `db'`. -/
def moved (κ : Past G) (db db' : Db G) : Past G :=
  { κ with seen := db', commits := κ.commits ++ [(db, db')] }

@[simp] theorem commits_sees (κ : Past G) (db : Db G) : (κ.sees db).commits = κ.commits := rfl

@[simp] theorem commits_reads (κ : Past G) (t : ℕ) : (κ.reads t).commits = κ.commits := rfl

@[simp] theorem seen_moved (κ : Past G) (db db' : Db G) : (κ.moved db db').seen = db' := rfl

@[simp] theorem commits_moved (κ : Past G) (db db' : Db G) :
    (κ.moved db db').commits = κ.commits ++ [(db, db')] := rfl

end Past

/-- What one process promises: how its transaction that began at a given time changes the
database, where it performs an effect, which rows an `UPDATE` of its transactions may fail to
find, and with which errors it ends. -/
structure Contract (G : Signature) where
  guar : ℕ → Db G → Db G → Prop
  act : G.Effect → Past G → Prop
  miss : G.Key → Prop
  err : G.Error → Past G → Prop

/-- The connection may break, whatever else the process has seen. -/
def Contract.Breakable (C : Contract G) (commits : List (Db G × Db G)) : Prop :=
  ∀ κ : Past G, κ.commits = commits → C.err G.fault κ

/-- The obligations of a transaction body that began at `start`, with the past `κ`, and holds
`w`. -/
def Tx.Safe (R : Discipline G) (C : Contract G) (start : ℕ)
    (Q : α → Past G → Writes G → Prop) : Tx G α → Past G → Writes G → Prop
  | ret a, κ, w => Q a κ w
  | fail e, κ, _ => C.err e κ
  | now next, κ, w => ∀ t, κ.time ≤ t → (next t).Safe R C start Q (κ.reads t) w
  | update k cond set next, κ, w =>
      ∀ db, R.inv db → R.rely κ.seen db → w.Agrees db →
        (∀ row, w.overlay db k = some row → cond row = true →
          (next (some (set row))).Safe R C start Q (κ.sees db) (w.write db k (set row))) ∧
        ((∀ row, w.overlay db k = some row → cond row = false) →
          C.miss k ∧ (next none).Safe R C start Q (κ.sees db) w)
  | insert refs row next, κ, w =>
      ∀ db n, R.inv db → R.rely κ.seen db → w.Agrees db → (∀ k ∈ refs, (w.overlay db k).isSome) →
        db (G.serial n) = none → w (G.serial n) = none →
          (next n (row n start)).Safe R C start Q (κ.sees db)
            (w.write db (G.serial n) (row n start))

/-- What a transaction that began at `start` owes when it commits the writes `w`: the commit
keeps the invariant, is one of the changes the others reckon with and one its contract allows,
and what comes next is safe. -/
def CommitSafe (R : Discipline G) (C : Contract G) (start : ℕ) (K : α → Past G → Prop) (a : α)
    (κ : Past G) (w : Writes G) : Prop :=
  ∀ db, R.inv db → R.rely κ.seen db → w.Agrees db →
    R.inv (w.overlay db) ∧ R.rely db (w.overlay db) ∧ C.guar start db (w.overlay db) ∧
      K a (κ.moved db (w.overlay db))

/-- The obligations of a program with the past `κ`. -/
def Prog.Safe (R : Discipline G) (C : Contract G) (Q : α → Past G → Prop) :
    Prog G α → Past G → Prop
  | ret a, κ => Q a κ
  | fail e, κ => C.err e κ
  | now next, κ => ∀ t, κ.time ≤ t → (next t).Safe R C Q (κ.reads t)
  | select k cond next, κ =>
      C.Breakable κ.commits ∧
        ∀ db, R.inv db → R.rely κ.seen db → (next ((db k).filter cond)).Safe R C Q (κ.sees db)
  | effect x next, κ =>
      ∀ db, R.inv db → R.rely κ.seen db →
        C.act x (κ.sees db) ∧ ∀ r, (next r).Safe R C Q (κ.sees db)
  | transaction body next, κ =>
      C.Breakable κ.commits ∧ ∀ start, κ.time ≤ start →
        body.Safe R C start (CommitSafe R C start fun b κ' => (next b).Safe R C Q κ')
          (κ.reads start) Writes.empty

section Bind

variable {R : Discipline G} {C : Contract G}

/-- The body of a transaction is safe if its first part establishes what the rest needs. -/
@[simp] theorem Tx.safe_bind {start : ℕ} {Q : β → Past G → Writes G → Prop} (x : Tx G α)
    (f : α → Tx G β) (κ : Past G) (w : Writes G) :
    (x.bind f).Safe R C start Q κ w ↔
      x.Safe R C start (fun a κ' w' => (f a).Safe R C start Q κ' w') κ w := by
  induction x generalizing κ w with
  | ret a => exact Iff.rfl
  | fail e => exact Iff.rfl
  | now next ih => simp only [bind, Safe, ih]
  | update k cond set next ih => simp only [bind, Safe, ih]
  | insert refs row next ih => simp only [bind, Safe, ih]

/-- A program is safe if its first part establishes what the rest needs. -/
@[simp] theorem Prog.safe_bind {Q : β → Past G → Prop} (x : Prog G α) (f : α → Prog G β)
    (κ : Past G) :
    (x.bind f).Safe R C Q κ ↔ x.Safe R C (fun a κ' => (f a).Safe R C Q κ') κ := by
  induction x generalizing κ with
  | ret a => exact Iff.rfl
  | fail e => exact Iff.rfl
  | now next ih => simp only [bind, Safe, ih]
  | select k cond next ih => simp only [bind, Safe, ih]
  | effect x next ih => simp only [bind, Safe, ih]
  | transaction body next ih => simp only [bind, Safe, ih]

end Bind

/-! ### Weaker promises -/

/-- Whoever keeps the contract `C` keeps `C'`. -/
structure Contract.Implies (C C' : Contract G) : Prop where
  guar : ∀ t db db', C.guar t db db' → C'.guar t db db'
  act : ∀ x κ, C.act x κ → C'.act x κ
  miss : ∀ k, C.miss k → C'.miss k
  err : ∀ e κ, C.err e κ → C'.err e κ

section Weaken

variable {R : Discipline G} {C C' : Contract G}

theorem Tx.Safe.weaken {start : ℕ} {Q Q' : α → Past G → Writes G → Prop} (hC : C.Implies C')
    (hQ : ∀ a κ w, Q a κ w → Q' a κ w) {x : Tx G α} {κ : Past G} {w : Writes G}
    (h : x.Safe R C start Q κ w) : x.Safe R C' start Q' κ w := by
  induction x generalizing κ w with
  | ret a => exact hQ a κ w h
  | fail e => exact hC.err e κ h
  | now next ih =>
    intro t ht
    exact ih t (h t ht)
  | update k cond set next ih =>
    intro db hinv hrely hw
    obtain ⟨hsome, hnone⟩ := h db hinv hrely hw
    refine ⟨?_, ?_⟩
    · intro row hrow hcond
      exact ih _ (hsome row hrow hcond)
    · intro hno
      -- a miss is allowed by the weaker contract as well
      obtain ⟨hmiss, hnext⟩ := hnone hno
      exact ⟨hC.miss k hmiss, ih _ hnext⟩
  | insert refs row next ih =>
    intro db n hinv hrely hw hrefs hdb hown
    exact ih _ _ (h db n hinv hrely hw hrefs hdb hown)

theorem Prog.Safe.weaken {Q : α → Past G → Prop} (hC : C.Implies C') {x : Prog G α} {κ : Past G}
    (h : x.Safe R C Q κ) : x.Safe R C' Q κ := by
  have hbreak {commits : List (Db G × Db G)} (hb : C.Breakable commits) : C'.Breakable commits :=
    fun κ hκ => hC.err G.fault κ (hb κ hκ)
  induction x generalizing κ with
  | ret a => exact h
  | fail e => exact hC.err e κ h
  | now next ih =>
    intro t ht
    exact ih t (h t ht)
  | select k cond next ih =>
    refine ⟨hbreak h.1, ?_⟩
    intro db hinv hrely
    exact ih _ (h.2 db hinv hrely)
  | effect x next ih =>
    intro db hinv hrely
    obtain ⟨hact, hnext⟩ := h db hinv hrely
    exact ⟨hC.act x _ hact, fun r => ih r (hnext r)⟩
  | transaction body next ih =>
    refine ⟨hbreak h.1, ?_⟩
    intro start hstart
    refine Tx.Safe.weaken hC ?_ (h.2 start hstart)
    intro b κ' w hcommit db hinv hrely hw
    -- the commit, and then what comes next
    obtain ⟨hinv', hrely', hguar, hnext⟩ := hcommit db hinv hrely hw
    exact ⟨hinv', hrely', hC.guar _ _ _ hguar, ih b hnext⟩

end Weaken

/-! ### No discipline -/

/-- Any database, and any change. -/
def Discipline.free (G : Signature) : Discipline G where
  inv _ := True
  rely _ _ := True
  rely_refl _ := trivial
  rely_trans _ _ _ _ _ := trivial

/-- No promise. -/
def Contract.free (G : Signature) : Contract G where
  guar _ _ _ := True
  act _ _ := True
  miss _ := True
  err _ _ := True

theorem Tx.safe_free {start : ℕ} {Q : α → Past G → Writes G → Prop} (hQ : ∀ a κ w, Q a κ w)
    (x : Tx G α) (κ : Past G) (w : Writes G) : x.Safe (.free G) (.free G) start Q κ w := by
  induction x generalizing κ w with
  | ret a => exact hQ a κ w
  | fail e => trivial
  | now next ih =>
    intro t _
    exact ih t _ _
  | update k cond set next ih =>
    intro db _ _ _
    refine ⟨?_, ?_⟩
    · intro row _ _
      exact ih _ _ _
    · intro _
      exact ⟨trivial, ih _ _ _⟩
  | insert refs row next ih =>
    intro db n _ _ _ _ _ _
    exact ih _ _ _ _

/-- Every program keeps the contract without promises. -/
theorem Prog.safe_free (x : Prog G α) (κ : Past G) :
    x.Safe (.free G) (.free G) (fun _ _ => True) κ := by
  induction x generalizing κ with
  | ret a => trivial
  | fail e => trivial
  | now next ih =>
    intro t _
    exact ih t _
  | select k cond next ih =>
    refine ⟨fun _ _ => trivial, ?_⟩
    intro db _ _
    exact ih _ _
  | effect x next ih =>
    intro db _ _
    refine ⟨trivial, ?_⟩
    intro r
    exact ih r _
  | transaction body next ih =>
    refine ⟨fun _ _ => trivial, ?_⟩
    intro start _
    refine Tx.safe_free ?_ body _ _
    intro b κ' w db _ _ _
    exact ⟨trivial, trivial, trivial, ih b _⟩

/-! ### The invariant of the machine -/

/-- The obligations of a process wherever it stands. A process outside a transaction holds
nothing. -/
def Proc.Safe (R : Discipline G) (C : Contract G) (Q : ρ → Past G → Prop) :
    Proc G ρ → Past G → Writes G → Prop
  | outside prog, κ, w => w = Writes.empty ∧ prog.Safe R C Q κ
  | inside t _ body next, κ, w =>
      t ≤ κ.time ∧ C.Breakable κ.commits ∧
        body.Safe R C t (CommitSafe R C t fun b κ' => (next b).Safe R C Q κ') κ w

variable {P : Type} [DecidableEq P] {R : Discipline G} {C : P → Contract G}
  {Q : P → ρ → Past G → Prop} {log : P → List (Db G × Db G)} {s s' : State G P ρ} {p : P}

/-- The obligations of the process `p` in the state `s`, should it have committed `commits` and
go on at `proc`. -/
def State.SafeAt (R : Discipline G) (C : P → Contract G) (Q : P → ρ → Past G → Prop)
    (s : State G P ρ) (p : P) (commits : List (Db G × Db G)) (proc : Proc G ρ) : Prop :=
  ∃ κ : Past G, R.rely κ.seen s.db ∧ κ.time ≤ s.clock ∧ κ.commits = commits ∧
    proc.Safe R (C p) (Q p) κ (s.own p)

/-- The machine keeps its promises: the committed database satisfies the invariant, every
process is safe where it stands, with the commits `log` behind it, and a key that the sequence
has still to give out is not taken by a row about to appear. -/
structure Sound (R : Discipline G) (C : P → Contract G) (Q : P → ρ → Past G → Prop)
    (log : P → List (Db G × Db G)) (s : State G P ρ) : Prop where
  inv : R.inv s.db
  safe : ∀ p, s.SafeAt R C Q p (log p) (s.procs p)
  fresh : ∀ n, s.nextId ≤ n → s.db (G.serial n) = none → s.dirty (G.serial n) = none

namespace Sound

/-- The start: the invariant holds, and every program is safe. -/
theorem initial {db : Db G} {nextId clock : ℕ} {code : P → Prog G ρ} (hinv : R.inv db)
    (hcode : ∀ p, (code p).Safe R (C p) (Q p) ⟨db, clock, []⟩) :
    Sound R C Q (fun _ => []) (State.initial db nextId clock code) where
  inv := hinv
  safe p := ⟨⟨db, clock, []⟩, R.rely_refl db, Nat.le_refl _, rfl, rfl, hcode p⟩
  fresh _ _ _ := rfl

/-- A process may be held to other promises, if it is safe under those. -/
theorem promise (h : Sound R C Q log s) {Q' : P → ρ → Past G → Prop}
    (hQ : ∀ q, q ≠ p → Q' q = Q q) (hp : s.SafeAt R C Q' p (log p) (s.procs p)) :
    Sound R C Q' log s where
  inv := h.inv
  fresh := h.fresh
  safe q := by
    by_cases hq : q = p
    · subst hq
      exact hp
    · obtain ⟨κ, hseen, htime, hlog, hsafe⟩ := h.safe q
      rw [← hQ q hq] at hsafe
      exact ⟨κ, hseen, htime, hlog, hsafe⟩

/-- What the others are left with when `p` makes a step: if their code and their rows are
untouched and the committed database changes as they expect, they are still safe. -/
theorem of_step (h : Sound R C Q log s) {log' : P → List (Db G × Db G)} (hinv : R.inv s'.db)
    (hrely : R.rely s.db s'.db)
    (hfresh : ∀ n, s'.nextId ≤ n → s'.db (G.serial n) = none → s'.dirty (G.serial n) = none)
    (hclock : s'.clock = s.clock) (hprocs : ∀ q, q ≠ p → s'.procs q = s.procs q)
    (hown : ∀ q, q ≠ p → s'.own q = s.own q) (hlog : ∀ q, q ≠ p → log' q = log q)
    (hp : s'.SafeAt R C Q p (log' p) (s'.procs p)) : Sound R C Q log' s' where
  inv := hinv
  fresh := hfresh
  safe q := by
    by_cases hq : q = p
    · subst hq
      exact hp
    · obtain ⟨κ, hseen, htime, hcommits, hsafe⟩ := h.safe q
      -- the others saw `κ.seen` last, and the step of `p` is one more change since
      refine ⟨κ, R.rely_trans _ _ _ hseen hrely, ?_, ?_, ?_⟩
      · rw [hclock]
        exact htime
      · rw [hlog q hq]
        exact hcommits
      · rw [hprocs q hq, hown q hq]
        exact hsafe

/-- `p` goes on without touching a row. -/
theorem goto (h : Sound R C Q log s) {proc : Proc G ρ} (hp : s.SafeAt R C Q p (log p) proc) :
    Sound R C Q log (s.goto p proc) := by
  refine h.of_step (p := p) h.inv (R.rely_refl _) h.fresh rfl ?_ ?_ (fun _ _ => rfl) ?_
  · intro q hq
    simp [State.goto, hq]
  · intro q _
    rfl
  · rw [State.goto_procs_self]
    exact hp

/-- `p` writes a row nobody else holds. -/
theorem write (h : Sound R C Q log s) {k : G.Key} {row : G.Row k} {proc : Proc G ρ} {nextId : ℕ}
    (hk : ¬s.Locked p k) (hnext : s.nextId ≤ nextId)
    (hfresh : ∀ n, nextId ≤ n → s.db (G.serial n) = none → G.serial n ≠ k)
    (hp : ∃ κ : Past G, R.rely κ.seen s.db ∧ κ.time ≤ s.clock ∧ κ.commits = log p ∧
      proc.Safe R (C p) (Q p) κ ((s.own p).write s.db k row)) :
    Sound R C Q log (({ s with nextId := nextId }.write p k row).goto p proc) := by
  refine h.of_step (p := p) h.inv (R.rely_refl _) ?_ rfl ?_ ?_ (fun _ _ => rfl) ?_
  · intro n hn hdb
    show Function.update s.dirty k (some (p, row)) (G.serial n) = none
    rw [Function.update_of_ne (hfresh n hn hdb)]
    exact h.fresh n (Nat.le_trans hnext hn) hdb
  · intro q hq
    simp [State.goto, State.write, hq]
  · intro q hq
    exact State.own_write_ne hk row hq
  · obtain ⟨κ, hseen, htime, hcommits, hsafe⟩ := hp
    refine ⟨κ, hseen, htime, hcommits, ?_⟩
    -- what `p` holds now is what it held and the new row
    rw [← State.own_write_self] at hsafe
    rw [State.goto_procs_self]
    exact hsafe

/-- `p` commits. -/
theorem commit (h : Sound R C Q log s) {prog : Prog G ρ} {κ : Past G}
    (hinv : R.inv (s.view p)) (hrely : R.rely s.db (s.view p)) (htime : κ.time ≤ s.clock)
    (hcommits : κ.commits = log p) (hp : prog.Safe R (C p) (Q p) (κ.moved s.db (s.view p))) :
    Sound R C Q (Function.update log p (log p ++ [(s.db, s.view p)]))
      ((s.commit p).goto p (.outside prog)) := by
  refine h.of_step (p := p) hinv hrely ?_ rfl ?_ ?_ ?_ ?_
  · intro n hn hdb
    exact State.dirtyWithout_of_none (h.fresh n hn (State.db_of_view hdb))
  · intro q hq
    simp [State.goto, State.commit, hq]
  · intro q hq
    exact State.own_commit_ne hq
  · intro q hq
    exact Function.update_of_ne hq _ _
  · -- `p` has just seen the database it committed
    refine ⟨κ.moved s.db (s.view p), R.rely_refl _, htime, ?_, ?_⟩
    · rw [Function.update_self, ← hcommits]
      rfl
    · rw [State.goto_procs_self]
      exact ⟨State.own_dirtyWithout_self (s := s) rfl, hp⟩

/-- `p` gives up its transaction with an exception its contract allows. -/
theorem rollback (h : Sound R C Q log s) {e : G.Error} {κ : Past G} {nextId : ℕ}
    (hnext : s.nextId ≤ nextId) (hseen : R.rely κ.seen s.db) (htime : κ.time ≤ s.clock)
    (hcommits : κ.commits = log p) (he : (C p).err e κ) :
    Sound R C Q log (({ s with nextId := nextId }.rollback p).goto p (.outside (.fail e))) := by
  refine h.of_step (p := p) h.inv (R.rely_refl _) ?_ rfl ?_ ?_ (fun _ _ => rfl) ?_
  · intro n hn hdb
    exact State.dirtyWithout_of_none (h.fresh n (Nat.le_trans hnext hn) hdb)
  · intro q hq
    simp [State.goto, State.rollback, hq]
  · intro q hq
    exact State.own_rollback_ne hq
  · refine ⟨κ, hseen, htime, hcommits, ?_⟩
    rw [State.goto_procs_self]
    exact ⟨State.own_dirtyWithout_self (s := s) rfl, he⟩

/-- A commit by a safe process: its last obligation, on the database as it is now. -/
theorem commitSafe (h : Sound R C Q log s) {t : ℕ} {scanned : Bool} {b : β}
    {next : β → Prog G ρ} (hp : s.procs p = .inside t scanned (.ret b) next) :
    ∃ κ : Past G, t ≤ κ.time ∧ κ.time ≤ s.clock ∧ κ.commits = log p ∧ R.inv (s.view p) ∧
      R.rely s.db (s.view p) ∧ (C p).guar t s.db (s.view p) ∧
      (next b).Safe R (C p) (Q p) (κ.moved s.db (s.view p)) := by
  obtain ⟨κ, hseen, htime, hcommits, hsafe⟩ := h.safe p
  rw [hp] at hsafe
  -- the rows `p` holds agree with the committed ones, so the obligation applies here and now
  have hcommit := hsafe.2.2 s.db h.inv hseen (s.own_agrees p)
  rw [s.overlay_own p] at hcommit
  exact ⟨κ, hsafe.1, htime, hcommits, hcommit⟩

/-- One statement of a transaction that is not its end keeps the invariant of the machine. -/
theorem stepTx (h : Sound R C Q log s) {t : ℕ} {scanned : Bool} {body : Tx G β}
    {next : β → Prog G ρ} (hbody : ∀ b, body ≠ .ret b)
    (hp : s.procs p = .inside t scanned body next)
    (hs : s.stepTx p t scanned body next = some s') : Sound R C Q log s' := by
  obtain ⟨κ, hseen, htime, hcommits, hsafe⟩ := h.safe p
  rw [hp] at hsafe
  obtain ⟨ht, hbreak, hsafe⟩ := hsafe
  cases body with
  | ret b => exact absurd rfl (hbody b)
  | fail e =>
    cases hs
    exact h.rollback (Nat.le_refl _) hseen htime hcommits hsafe
  | now k =>
    cases hs
    exact h.goto ⟨κ.reads s.clock, hseen, Nat.le_refl _, hcommits, Nat.le_trans ht htime, hbreak,
      hsafe s.clock htime⟩
  | update k cond set cont =>
    -- the row as the transaction sees it decides, both on the snapshot and under the lock
    obtain ⟨hsome, hnone⟩ := hsafe s.db h.inv hseen (s.own_agrees p)
    rw [s.overlay_own p] at hsome hnone
    simp only [State.stepTx] at hs
    cases hrow : (s.view p k).filter cond with
    | none =>
      rw [hrow] at hs
      simp only [] at hs
      split at hs
      · cases hs
      · cases hs
        -- zero rows: the condition fails on the row as it is seen now
        have hno : ∀ row, s.view p k = some row → cond row = false := by
          intro row hview
          rw [hview, Option.filter_some] at hrow
          simpa using hrow
        exact h.goto ⟨κ.sees s.db, R.rely_refl _, htime, hcommits, ht, hbreak, (hnone hno).2⟩
    | some row =>
      rw [hrow] at hs
      obtain ⟨hview, hcond⟩ := Option.filter_eq_some_iff.mp hrow
      simp only [] at hs
      split at hs
      · cases hs
        -- found on the snapshot, and nothing done yet
        exact h.goto ⟨κ, hseen, htime, hcommits, ht, hbreak, hsafe⟩
      · split at hs
        · cases hs
        · rename_i hlock
          cases hs
          refine h.write hlock (Nat.le_refl _) ?_
            ⟨κ.sees s.db, R.rely_refl _, htime, hcommits, ht, hbreak, hsome row hview hcond⟩
          -- the row is there, so it is no row that is still to come
          rintro n hn hdb rfl
          simp [State.view, h.fresh n hn hdb, hdb] at hview
  | insert refs row cont =>
    simp only [State.stepTx] at hs
    split at hs
    · rename_i hkeys
      cases hs
      obtain ⟨hview, hrefs⟩ := hkeys
      have hdb := State.db_of_view (Option.isNone_iff_eq_none.mp hview)
      have hdirty := h.fresh s.nextId (Nat.le_refl _) hdb
      refine h.write ?_ (Nat.le_succ _) ?_ ⟨κ.sees s.db, R.rely_refl _, htime, hcommits, ht,
        hbreak, hsafe s.db s.nextId h.inv hseen (s.own_agrees p) ?_ hdb
          (State.own_of_none hdirty)⟩
      · rintro ⟨v, hv, -⟩
        simp [hdirty] at hv
      · intro n hn _ heq
        -- the key was the next one, and the sequence has moved past it
        have := G.serial_injective heq
        omega
      · rw [s.overlay_own p]
        exact hrefs
    · cases hs
      -- the primary key or a foreign key refuses the row
      exact h.rollback (Nat.le_succ _) hseen htime hcommits (hbreak κ rfl)

/-- Every step of the machine keeps its invariant. -/
theorem step (h : Sound R C Q log s) {e : Event G P} (hs : s.step e = some s') :
    Sound R C Q (fun p => log p ++ s.commits p e) s' := by
  -- a step that commits nothing leaves the log alone
  have hquiet (hnone : ∀ p, s.commits p e = []) (hsound : Sound R C Q log s') :
      Sound R C Q (fun p => log p ++ s.commits p e) s' := by
    have : (fun p => log p ++ s.commits p e) = log := by
      ext1 p
      rw [hnone p, List.append_nil]
    rw [this]
    exact hsound
  cases e with
  | tick d =>
    cases hs
    refine hquiet (fun _ => rfl) ⟨h.inv, ?_, h.fresh⟩
    intro p
    obtain ⟨κ, hseen, htime, hcommits, hsafe⟩ := h.safe p
    exact ⟨κ, hseen, Nat.le_trans htime (Nat.le_add_right _ _), hcommits, hsafe⟩
  | run p =>
    simp only [State.step] at hs
    cases hp : s.procs p with
    | inside t scanned body next =>
      rw [hp] at hs
      by_cases hbody : ∃ b, body = .ret b
      · -- the body is over: the transaction commits
        obtain ⟨b, rfl⟩ := hbody
        obtain ⟨κ, -, htime, hcommits, hinv, hrely, -, hnext⟩ := h.commitSafe hp
        cases hs
        have hlog : (fun q => log q ++ s.commits q (.run p)) =
            Function.update log p (log p ++ [(s.db, s.view p)]) := by
          ext1 q
          by_cases hq : q = p
          · subst hq
            simp [State.commits, hp]
          · simp [State.commits, hp, hq, Ne.symm hq]
        rw [hlog]
        exact h.commit hinv hrely htime hcommits hnext
      · have hbody' : ∀ b, body ≠ .ret b := fun b hb => hbody ⟨b, hb⟩
        refine hquiet ?_ (h.stepTx hbody' hp hs)
        intro q
        cases body with
        | ret b => exact absurd rfl (hbody' b)
        | _ => simp [State.commits, hp]
    | outside prog =>
      obtain ⟨κ, hseen, htime, hcommits, hsafe⟩ := h.safe p
      rw [hp] at hs hsafe
      obtain ⟨hown, hprog⟩ := hsafe
      refine hquiet (fun q => by simp [State.commits, hp]) ?_
      cases prog with
      | ret a => cases hs
      | fail e => cases hs
      | now next =>
        cases hs
        exact h.goto ⟨κ.reads s.clock, hseen, Nat.le_refl _, hcommits, hown, hprog s.clock htime⟩
      | select k cond next =>
        cases hs
        -- the row read is one of the committed database, which is the one seen from here on
        exact h.goto ⟨κ.sees s.db, R.rely_refl _, htime, hcommits, hown,
          hprog.2 s.db h.inv hseen⟩
      | effect x next => cases hs
      | transaction body next =>
        cases hs
        refine h.goto ⟨κ.reads s.clock, hseen, Nat.le_refl _, hcommits, Nat.le_refl _, hprog.1, ?_⟩
        -- a transaction begins with nothing written
        rw [hown]
        exact hprog.2 s.clock htime
  | reply p r =>
    obtain ⟨κ, hseen, htime, hcommits, hsafe⟩ := h.safe p
    refine hquiet (fun _ => rfl) ?_
    simp only [State.step] at hs
    split at hs
    · rename_i x next hp
      cases hs
      rw [hp] at hsafe
      obtain ⟨hown, hprog⟩ := hsafe
      exact h.goto ⟨κ.sees s.db, R.rely_refl _, htime, hcommits, hown,
        (hprog s.db h.inv hseen).2 r⟩
    · cases hs
  | fault p =>
    obtain ⟨κ, hseen, htime, hcommits, hsafe⟩ := h.safe p
    refine hquiet (fun _ => rfl) ?_
    simp only [State.step] at hs
    split at hs
    · rename_i k cond next hp
      cases hs
      rw [hp] at hsafe
      exact h.goto ⟨κ, hseen, htime, hcommits, hsafe.1, hsafe.2.1 κ rfl⟩
    · rename_i body next hp
      cases hs
      rw [hp] at hsafe
      exact h.goto ⟨κ, hseen, htime, hcommits, hsafe.1, hsafe.2.1 κ rfl⟩
    · rename_i hp
      cases hs
      rw [hp] at hsafe
      -- a transaction under way is rolled back
      exact h.rollback (Nat.le_refl _) hseen htime hcommits (hsafe.2.1 κ rfl)
    · cases hs

/-- Every run of the machine keeps its invariant. -/
theorem run (h : Sound R C Q log s) {es : List (Event G P)} (hs : s.run es = some s') :
    Sound R C Q (fun p => log p ++ s.history p es) s' := by
  induction es generalizing s log with
  | nil =>
    cases hs
    simpa [State.history] using h
  | cons e es ih =>
    obtain ⟨s₁, hs₁, hrun⟩ := Option.bind_eq_some_iff.mp hs
    have := ih (h.step hs₁) hrun
    simpa [State.history, hs₁] using this

/-- A step commits nothing, or what the contract of its process allows to a transaction. -/
theorem commits_step (h : Sound R C Q log s) {e : Event G P} (hs : s.step e = some s') :
    s'.db = s.db ∧ (∀ q, s.commits q e = []) ∨ ∃ p t, e = .run p ∧ t ≤ s.clock ∧
      s.commits p e = [(s.db, s'.db)] ∧ (C p).guar t s.db s'.db ∧ R.rely s.db s'.db := by
  obtain hquiet | ⟨p, β, t, scanned, b, next, rfl, hp, hdb⟩ := State.commit_cases hs
  · exact .inl hquiet
  · -- a commit, which its contract covers
    obtain ⟨κ, ht, htime, -, -, hrely, hguar, -⟩ := h.commitSafe hp
    rw [hdb]
    exact .inr ⟨p, t, rfl, Nat.le_trans ht htime, by simp [State.commits, hp], hguar, hrely⟩

/-- A step that commits commits what the contract of its process allows to a transaction that began
when this one did, and any other leaves the committed database alone. -/
theorem committing_step (h : Sound R C Q log s) {e : Event G P} (hs : s.step e = some s') :
    s'.db = s.db ∧ s.committing e = none ∨ ∃ p t, e = .run p ∧ s'.db = s.view p ∧
      s.committing e = some t ∧ (C p).guar t s.db s'.db := by
  obtain ⟨hdb, hnone⟩ | ⟨p, β, t, scanned, b, next, rfl, hp, hdb⟩ := State.commit_cases hs
  · refine .inl ⟨hdb, ?_⟩
    cases e with
    | run p =>
      -- had it committed, there would be something in its log
      have hno := hnone p
      simp only [State.commits, State.committing] at hno ⊢
      split at hno
      · simp at hno
      · rfl
    | _ => rfl
  · obtain ⟨κ, -, -, -, -, -, hguar, -⟩ := h.commitSafe hp
    refine .inr ⟨p, t, rfl, hdb, by simp only [State.committing, hp], ?_⟩
    rw [hdb]
    exact hguar

/-- What a step does to the committed database: nothing, or what the contract of its process
allows to a transaction. -/
theorem db_step (h : Sound R C Q log s) {e : Event G P} (hs : s.step e = some s') :
    s'.db = s.db ∨
      ∃ p t, e = .run p ∧ t ≤ s.clock ∧ (C p).guar t s.db s'.db ∧ R.rely s.db s'.db := by
  obtain ⟨hdb, -⟩ | ⟨p, t, he, ht, -, hguar, hrely⟩ := h.commits_step hs
  · exact .inl hdb
  · exact .inr ⟨p, t, he, ht, hguar, hrely⟩

/-- Every commit of a run is one that the contract of its process allows. -/
theorem guar_of_mem (h : Sound R C Q log s) {es : List (Event G P)} (hrun : s.run es = some s')
    {c : P × Db G × Db G} (hc : c ∈ s.commitLog es) : ∃ t, (C c.1).guar t c.2.1 c.2.2 := by
  induction es generalizing s log with
  | nil => cases hc
  | cons e es ih =>
    obtain ⟨s₁, hs, hrun⟩ := Option.bind_eq_some_iff.mp hrun
    rw [State.commitLog, hs] at hc
    obtain hc | hc := List.mem_append.mp hc
    · obtain ⟨-, hnone⟩ | ⟨p, t, rfl, -, hcommits, hguar, -⟩ := h.commits_step hs
      · cases he : e.actor <;> simp [he, hnone] at hc
      · simp only [Event.actor, Option.elim_some, hcommits, List.map_singleton,
          List.mem_singleton] at hc
        rw [hc]
        exact ⟨t, hguar⟩
    · exact ih (h.step hs) hrun hc

/-- A step changes the committed database as all processes reckon with. -/
theorem rely_step (h : Sound R C Q log s) {e : Event G P} (hs : s.step e = some s') :
    R.rely s.db s'.db := by
  obtain hdb | ⟨_, _, _, _, _, hrely⟩ := h.db_step hs
  · rw [hdb]
    exact R.rely_refl _
  · exact hrely

/-- So does a run. -/
theorem rely_run (h : Sound R C Q log s) {es : List (Event G P)} (hs : s.run es = some s') :
    R.rely s.db s'.db := by
  induction es generalizing s log with
  | nil =>
    cases hs
    exact R.rely_refl _
  | cons e es ih =>
    obtain ⟨s₁, hs₁, hrun⟩ := Option.bind_eq_some_iff.mp hs
    exact R.rely_trans _ _ _ (h.rely_step hs₁) (ih (h.step hs₁) hrun)

/-! ### Where a process can stand -/

/-- A process that has returned has done so as its postcondition says, and holds nothing. -/
theorem returned (h : Sound R C Q log s) {a : ρ} (hp : s.procs p = .outside (.ret a)) :
    ∃ κ : Past G, R.rely κ.seen s.db ∧ κ.commits = log p ∧ s.own p = Writes.empty ∧
      Q p a κ := by
  obtain ⟨κ, hseen, -, hcommits, hsafe⟩ := h.safe p
  rw [hp] at hsafe
  exact ⟨κ, hseen, hcommits, hsafe⟩

/-- A process that has thrown an error has thrown one its contract allows, and holds nothing. -/
theorem failed (h : Sound R C Q log s) {e : G.Error} (hp : s.procs p = .outside (.fail e)) :
    ∃ κ : Past G, R.rely κ.seen s.db ∧ κ.commits = log p ∧ s.own p = Writes.empty ∧
      (C p).err e κ := by
  obtain ⟨κ, hseen, -, hcommits, hsafe⟩ := h.safe p
  rw [hp] at hsafe
  exact ⟨κ, hseen, hcommits, hsafe⟩

/-- So has a transaction that is about to be rolled back. -/
theorem failing (h : Sound R C Q log s) {t : ℕ} {scanned : Bool} {e : G.Error}
    {next : β → Prog G ρ} (hp : s.procs p = .inside t scanned (.fail e) next) :
    ∃ κ : Past G, R.rely κ.seen s.db ∧ κ.commits = log p ∧ (C p).err e κ := by
  obtain ⟨κ, hseen, -, hcommits, hsafe⟩ := h.safe p
  rw [hp] at hsafe
  exact ⟨κ, hseen, hcommits, hsafe.2.2⟩

/-- An `UPDATE` that may not miss its row sees it. -/
theorem finds (h : Sound R C Q log s) {t : ℕ} {scanned : Bool} {k : G.Key}
    {cond : G.Row k → Bool} {set : G.Row k → G.Row k} {cont : Option (G.Row k) → Tx G β}
    {next : β → Prog G ρ} (hp : s.procs p = .inside t scanned (.update k cond set cont) next)
    (hmiss : ¬(C p).miss k) : ∃ row, s.view p k = some row ∧ cond row = true := by
  obtain ⟨κ, hseen, -, -, hsafe⟩ := h.safe p
  rw [hp] at hsafe
  obtain ⟨-, hnone⟩ := hsafe.2.2 s.db h.inv hseen (s.own_agrees p)
  rw [s.overlay_own p] at hnone
  by_contra hno
  refine hmiss (hnone ?_).1
  intro row hrow
  by_contra hcond
  exact hno ⟨row, hrow, by simpa using hcond⟩

/-- A process that performs an effect does so where its contract says. -/
theorem act (h : Sound R C Q log s) {x : G.Effect} {next : G.Reply → Prog G ρ}
    (hp : s.procs p = .outside (.effect x next)) :
    ∃ κ : Past G, κ.seen = s.db ∧ κ.time ≤ s.clock ∧ κ.commits = log p ∧ (C p).act x κ := by
  obtain ⟨κ, hseen, htime, hcommits, hsafe⟩ := h.safe p
  rw [hp] at hsafe
  exact ⟨κ.sees s.db, rfl, htime, hcommits, (hsafe.2 s.db h.inv hseen).1⟩

end Sound

end ScalableBooking.ReadCommitted
