import Mathlib.Logic.Relation
import ScalableBooking.Lib.RelyGuarantee

/-!
# Locks taken in order

A transaction that waits for the lock of a row waits for the process that holds it. If every
transaction locks the rows that others can wait for in increasing order of a level of the keys,
then nobody waits in a circle: whoever is waited for holds a row of one level and can wait only
for one of a higher level (`LockOrdered.not_cyclic`). So if a transaction is under way and the
levels are bounded, one of those under way can make its next step (`LockOrdered.exists_step`).

Only an `UPDATE` waits. It has found its row among the committed ones, so nobody waits for a row
that has just been inserted, and a transaction may insert at any time.
-/

namespace ScalableBooking.ReadCommitted

variable {G : Signature} {α β ρ : Type} {level : G.Key → ℕ}

/-! ### Programs -/

/-- From here on the body updates rows in increasing order of their levels, the first one at the
level `l` or above. -/
def Tx.Ascending (level : G.Key → ℕ) : Tx G α → ℕ → Prop
  | ret _, _ | fail _, _ => True
  | now next, l => ∀ t, (next t).Ascending level l
  | update k _ _ next, l => l ≤ level k ∧ (∀ row, (next (some row)).Ascending level (level k + 1)) ∧
      (next none).Ascending level l
  | insert _ _ next, l => ∀ n row, (next n row).Ascending level l

/-- So do all transactions of the program. -/
def Prog.Ascending (level : G.Key → ℕ) : Prog G α → Prop
  | ret _ | fail _ => True
  | now next => ∀ t, (next t).Ascending level
  | select _ _ next => ∀ row, (next row).Ascending level
  | effect _ next => ∀ r, (next r).Ascending level
  | transaction body next => body.Ascending level 0 ∧ ∀ b, (next b).Ascending level

/-! ### Waiting -/

variable {P : Type} [DecidableEq P] {s s' : State G P ρ} {p q r : P}

/-- The process `p` has found the row `k` and waits for its lock, which `q` holds. -/
def State.WaitsAt (s : State G P ρ) (p q : P) (k : G.Key) : Prop :=
  (∃ (β : Type) (t : ℕ) (cond : G.Row k → Bool) (set : G.Row k → G.Row k)
    (cont : Option (G.Row k) → Tx G β) (next : β → Prog G ρ),
      s.procs p = .inside t true (.update k cond set cont) next) ∧
    ∃ row, s.dirty k = some (q, row) ∧ q ≠ p

/-- The process `p` waits for `q`. -/
def State.Waits (s : State G P ρ) (p q : P) : Prop := ∃ k, s.WaitsAt p q k

/-- The process `p` is inside a transaction. -/
def State.Inside (s : State G P ρ) (p : P) : Prop :=
  ∃ (β : Type) (t : ℕ) (scanned : Bool) (body : Tx G β) (next : β → Prog G ρ),
    s.procs p = .inside t scanned body next

/-! ### The invariant -/

/-- Where a process stands, with the writes `w`: the rows it has updated are below all that it
still updates. A row that it has inserted has no old version. -/
def Proc.Ascending (level : G.Key → ℕ) : Proc G ρ → Writes G → Prop
  | outside prog, w => w = Writes.empty ∧ prog.Ascending level
  | inside _ _ body next, w =>
      (∃ l, body.Ascending level l ∧
        ∀ k old row, w k = some (some old, row) → level k < l) ∧
      ∀ b, (next b).Ascending level

/-- All processes lock their rows in order, and one that waits for a row sees it. -/
structure LockOrdered (level : G.Key → ℕ) (s : State G P ρ) : Prop where
  proc : ∀ p, (s.procs p).Ascending level (s.own p)
  found : ∀ (p : P) (β : Type) (t : ℕ) (k : G.Key) (cond : G.Row k → Bool)
    (set : G.Row k → G.Row k) (cont : Option (G.Row k) → Tx G β) (next : β → Prog G ρ),
    s.procs p = .inside t true (.update k cond set cont) next → (s.view p k).isSome

namespace LockOrdered

theorem initial {db : Db G} {nextId clock : ℕ} {code : P → Prog G ρ}
    (hcode : ∀ p, (code p).Ascending level) :
    LockOrdered level (State.initial db nextId clock code) where
  proc p := ⟨rfl, hcode p⟩
  found := by
    rintro p β t k cond set cont next ⟨⟩

/-- A row that a process has found stays there, when others make a step. -/
theorem isSome_view {k : G.Key} (h : (s.view q k).isSome) (hown : s'.own q = s.own q)
    (hdb : (s.db k).isSome → (s'.db k).isSome) : (s'.view q k).isSome := by
  obtain ⟨row, hrow, -⟩ | ⟨-, hview⟩ := s.view_cases q k
  · -- it is a version of its own
    have hown' : s'.own q k = some (s.db k, row) := by
      rw [hown]
      exact State.own_of_self hrow
    simp [State.view, State.dirty_of_own hown']
  · rw [hview] at h
    by_contra hnone
    rw [Option.not_isSome_iff_eq_none] at hnone
    have hsome := hdb h
    rw [State.db_of_view hnone] at hsome
    cases hsome

/-- What has to be shown for a step of `p` that goes on at `proc`. -/
theorem of_step (h : LockOrdered level s)
    (hnext : s.db (G.serial s.nextId) = none → s.dirty (G.serial s.nextId) = none)
    {e : Event G P} {t : State G P ρ} {proc : Proc G ρ} (hs : s.step e = some (t.goto p proc))
    (he : e.actor = some p) (hp : proc.Ascending level (t.own p))
    (hfound : ∀ (β : Type) (n : ℕ) (k : G.Key) (cond : G.Row k → Bool)
      (set : G.Row k → G.Row k) (cont : Option (G.Row k) → Tx G β) (next : β → Prog G ρ),
      proc = .inside n true (.update k cond set cont) next → (t.view p k).isSome) :
    LockOrdered level (t.goto p proc) := by
  -- only what `p` is at changes, and only what `p` has written
  have hother {q : P} (hq : q ≠ p) : e.actor ≠ some q := by
    rw [he]
    exact fun heq => hq (Option.some.inj heq).symm
  refine ⟨?_, ?_⟩
  · intro q
    by_cases hq : q = p
    · subst hq
      rw [State.goto_procs_self]
      exact hp
    · rw [(State.step_frame hs).2 q (hother hq), State.step_own_of_next hnext hs (hother hq)]
      exact h.proc q
  · intro q β n k cond set cont next hprocs
    by_cases hq : q = p
    · subst hq
      rw [State.goto_procs_self] at hprocs
      exact hfound β n k cond set cont next hprocs
    · rw [(State.step_frame hs).2 q (hother hq)] at hprocs
      exact isSome_view (h.found q β n k cond set cont next hprocs)
        (State.step_own_of_next hnext hs (hother hq)) (State.isSome_step hs)

/-- The step of a process that goes on outside a transaction, with nothing written. -/
theorem goOutside (h : LockOrdered level s)
    (hnext : s.db (G.serial s.nextId) = none → s.dirty (G.serial s.nextId) = none)
    {e : Event G P} {t : State G P ρ} {prog : Prog G ρ}
    (hs : s.step e = some (t.goto p (.outside prog))) (he : e.actor = some p)
    (hown : t.own p = Writes.empty) (hprog : prog.Ascending level) :
    LockOrdered level (t.goto p (.outside prog)) :=
  h.of_step hnext hs he ⟨hown, hprog⟩ (by rintro β n k _ _ _ _ ⟨⟩)

/-- A process that leaves its transaction holds nothing. -/
theorem leave (h : LockOrdered level s)
    (hnext : s.db (G.serial s.nextId) = none → s.dirty (G.serial s.nextId) = none)
    {e : Event G P} {t : State G P ρ} {prog : Prog G ρ}
    (hs : s.step e = some (t.goto p (.outside prog))) (he : e.actor = some p)
    (hdirty : t.dirty = s.dirtyWithout p) (hprog : prog.Ascending level) :
    LockOrdered level (t.goto p (.outside prog)) :=
  h.goOutside hnext hs he (State.own_dirtyWithout_self hdirty) hprog

/-- One statement of a transaction. -/
theorem stepTx (h : LockOrdered level s)
    (hnext : s.db (G.serial s.nextId) = none → s.dirty (G.serial s.nextId) = none) {t : ℕ}
    {scanned : Bool} {body : Tx G β} {next : β → Prog G ρ}
    (hp : s.procs p = .inside t scanned body next)
    (hs : s.stepTx p t scanned body next = some s') : LockOrdered level s' := by
  have hrun : s.step (.run p) = some s' := by
    simp only [State.step, hp]
    exact hs
  have hproc := h.proc p
  rw [hp] at hproc
  obtain ⟨⟨l, hbody, hheld⟩, hrest⟩ := hproc
  -- a statement that has been executed waits for nothing
  have hfresh {body' : Tx G β} {r : State G P ρ} (γ : Type) (n : ℕ) (k : G.Key)
      (cond : G.Row k → Bool) (set : G.Row k → G.Row k) (cont : Option (G.Row k) → Tx G γ)
      (next' : γ → Prog G ρ)
      (heq : Proc.inside t false body' next = .inside n true (.update k cond set cont) next') :
      (r.view p k).isSome := by
    cases heq
  cases body with
  | ret b =>
    cases hs
    exact h.leave hnext hrun rfl rfl (hrest b)
  | fail e =>
    cases hs
    exact h.leave hnext hrun rfl rfl trivial
  | now k =>
    cases hs
    exact h.of_step hnext hrun rfl ⟨⟨l, hbody s.clock, hheld⟩, hrest⟩ hfresh
  | update k cond set cont =>
    obtain ⟨hle, hsome, hnone⟩ := hbody
    simp only [State.stepTx] at hs
    cases hrow : (s.view p k).filter cond with
    | none =>
      rw [hrow] at hs
      obtain ⟨-, hs⟩ := Option.ite_none_left_eq_some.mp hs
      cases hs
      exact h.of_step hnext hrun rfl ⟨⟨l, hnone, hheld⟩, hrest⟩ hfresh
    | some row =>
      rw [hrow] at hs
      obtain ⟨hview, -⟩ := Option.filter_eq_some_iff.mp hrow
      simp only [] at hs
      split at hs
      · cases hs
        refine h.of_step hnext hrun rfl ⟨⟨l, ⟨hle, hsome, hnone⟩, hheld⟩, hrest⟩ ?_
        rintro γ n k' cond' set' cont' next' ⟨⟩
        simp [hview]
      · obtain ⟨hlock, hs⟩ := Option.ite_none_left_eq_some.mp hs
        cases hs
        refine h.of_step hnext hrun rfl ⟨⟨level k + 1, hsome _, ?_⟩, hrest⟩ hfresh
        -- the row just locked is above all that were held
        intro j old new hj
        rw [State.own_write_self] at hj
        by_cases hjk : j = k
        · subst hjk
          exact Nat.lt_succ_self _
        · rw [Writes.write, Function.update_of_ne hjk] at hj
          exact Nat.lt_succ_of_lt (Nat.lt_of_lt_of_le (hheld j old new hj) hle)
  | insert refs row cont =>
    simp only [State.stepTx] at hs
    split at hs
    · rename_i hkeys
      cases hs
      refine h.of_step hnext hrun rfl ⟨⟨l, hbody _ _, ?_⟩, hrest⟩ hfresh
      -- nobody can wait for the row, which has no old version
      intro j old new hj
      have hdb := State.db_of_view (Option.isNone_iff_eq_none.mp hkeys.1)
      rw [State.own_write_self] at hj
      by_cases hjk : j = G.serial s.nextId
      · subst hjk
        rw [Writes.write_self] at hj
        rw [show ({ s with nextId := s.nextId + 1 } : State G P ρ).db = s.db from rfl, hdb] at hj
        cases hj
      · rw [Writes.write, Function.update_of_ne hjk] at hj
        exact hheld j old new hj
    · cases hs
      exact h.leave hnext hrun rfl rfl trivial

/-- Every step keeps the order. -/
theorem step (h : LockOrdered level s)
    (hnext : s.db (G.serial s.nextId) = none → s.dirty (G.serial s.nextId) = none)
    {e : Event G P} (hs : s.step e = some s') : LockOrdered level s' := by
  have hs' := hs
  cases e with
  | tick d =>
    cases hs
    exact ⟨h.proc, h.found⟩
  | run p =>
    simp only [State.step] at hs
    cases hp : s.procs p with
    | inside t scanned body next =>
      rw [hp] at hs
      exact h.stepTx hnext hp hs
    | outside prog =>
      have hproc := h.proc p
      rw [hp] at hs hproc
      obtain ⟨hown, hprog⟩ := hproc
      cases prog with
      | now next =>
        cases hs
        exact h.goOutside hnext hs' rfl hown (hprog s.clock)
      | select k cond next =>
        cases hs
        exact h.goOutside hnext hs' rfl hown (hprog _)
      | transaction body next =>
        cases hs
        -- a transaction begins with nothing written, so no level has been reached
        refine h.of_step hnext hs' rfl ⟨⟨0, hprog.1, ?_⟩, hprog.2⟩ (by rintro β n k _ _ _ _ ⟨⟩)
        intro k old row hk
        rw [hown] at hk
        cases hk
      | _ => cases hs
  | reply p r =>
    simp only [State.step] at hs
    split at hs
    · rename_i x next hp
      cases hs
      have hproc := h.proc p
      rw [hp] at hproc
      exact h.goOutside hnext hs' rfl hproc.1 (hproc.2 r)
    · cases hs
  | fault p =>
    simp only [State.step] at hs
    have hproc := h.proc p
    split at hs
    · rename_i hp
      rw [hp] at hproc
      cases hs
      exact h.goOutside hnext hs' rfl hproc.1 trivial
    · rename_i hp
      rw [hp] at hproc
      cases hs
      exact h.goOutside hnext hs' rfl hproc.1 trivial
    · -- the connection breaks within the transaction: its writes are given up
      cases hs
      exact h.leave hnext hs' rfl rfl trivial
    · cases hs

/-- Every run does. -/
theorem run {log : P → List (Db G × Db G)} (h : LockOrdered level s)
    (hsound : Sound (.free G) (fun _ => .free G) (fun _ _ _ => True) log s) {es : List (Event G P)}
    (hrun : s.run es = some s') : LockOrdered level s' := by
  induction es generalizing s log with
  | nil =>
    cases hrun
    exact h
  | cons e es ih =>
    obtain ⟨s₁, hs, hrun⟩ := Option.bind_eq_some_iff.mp hrun
    exact ih (h.step (hsound.fresh _ (Nat.le_refl _)) hs) (hsound.step hs) hrun

theorem of_run {db : Db G} {nextId clock : ℕ} {code : P → Prog G ρ}
    (hcode : ∀ p, (code p).Ascending level) {es : List (Event G P)}
    (hrun : (State.initial db nextId clock code).run es = some s) : LockOrdered level s :=
  (initial hcode).run (Sound.initial trivial fun p => (code p).safe_free _) hrun

/-! ### Nobody waits in a circle -/

omit [DecidableEq P] in
/-- A process waits for one row, and for one other process. -/
theorem waitsAt_unique {k j : G.Key} (h : s.WaitsAt p q k) (h' : s.WaitsAt p r j) : k = j := by
  obtain ⟨⟨β, t, cond, set, cont, next, hp⟩, -⟩ := h
  obtain ⟨⟨β', t', cond', set', cont', next', hp'⟩, -⟩ := h'
  rw [hp] at hp'
  cases hp'
  rfl

/-- Who is waited for waits for a row of a higher level. -/
theorem level_lt (h : LockOrdered level s) {k j : G.Key} (hpq : s.WaitsAt p q k)
    (hqr : s.WaitsAt q r j) : level k < level j := by
  obtain ⟨⟨β, t, cond, set, cont, next, hp⟩, row, hdirty, hne⟩ := hpq
  obtain ⟨⟨β', t', cond', set', cont', next', hq⟩, -⟩ := hqr
  have hproc := h.proc q
  rw [hq] at hproc
  obtain ⟨⟨l, ⟨hle, -⟩, hheld⟩, -⟩ := hproc
  -- `p` sees the committed version of the row, which `q` has written over
  have hview := h.found p β t k cond set cont next hp
  rw [show s.view p k = s.db k by simp [State.view, hdirty, hne]] at hview
  obtain ⟨old, hold⟩ := Option.isSome_iff_exists.mp hview
  have hown : s.own q k = some (some old, row) := by
    rw [State.own_of_self hdirty, hold]
  exact Nat.lt_of_lt_of_le (hheld k old row hown) hle

theorem level_lt_of_transGen (h : LockOrdered level s) (hpq : Relation.TransGen s.Waits p q)
    {p' q' : P} {k j : G.Key} (hp : s.WaitsAt p p' k) (hq : s.WaitsAt q q' j) :
    level k < level j := by
  induction hpq generalizing q' j with
  | single hpq =>
    obtain ⟨i, hi⟩ := hpq
    obtain rfl := waitsAt_unique hp hi
    exact h.level_lt hi hq
  | tail _ hbc ih =>
    obtain ⟨i, hi⟩ := hbc
    exact Nat.lt_trans (ih hi) (h.level_lt hi hq)

/-- The wait-for graph has no cycle. -/
theorem not_cyclic (h : LockOrdered level s) (p : P) : ¬Relation.TransGen s.Waits p p := by
  intro hcycle
  obtain ⟨q, ⟨k, hk⟩, -⟩ := Relation.TransGen.head'_iff.mp hcycle
  exact Nat.lt_irrefl _ (h.level_lt_of_transGen hcycle hk hk)

/-! ### Somebody goes on -/

/-- A process inside its transaction can make a step, or waits. -/
theorem step_or_waits (hp : s.Inside p) :
    (s.step (.run p)).isSome ∨ ∃ q k, s.WaitsAt p q k := by
  obtain ⟨β, t, scanned, body, next, hp⟩ := hp
  simp only [State.step, hp]
  cases body with
  | update k cond set cont =>
    by_cases hlock : s.Locked p k
    · obtain ⟨⟨q, row⟩, hdirty, hne⟩ := hlock
      cases scanned with
      | true => exact .inr ⟨q, k, ⟨β, t, cond, set, cont, next, hp⟩, row, hdirty, hne⟩
      | false =>
        -- the snapshot is read without a lock
        refine .inl ?_
        simp only [State.stepTx]
        cases (s.view p k).filter cond <;> rfl
    · refine .inl (State.isSome_stepTx ?_)
      rintro k' cond' set' cont' ⟨⟩
      exact hlock
  | insert refs row cont =>
    exact .inl (State.isSome_stepTx (by rintro k cond set cont ⟨⟩))
  | _ => exact .inl rfl

/-- Who holds a row is inside its transaction. -/
theorem inside_of_waitsAt (h : LockOrdered level s) {k : G.Key} (hpq : s.WaitsAt p q k) :
    s.Inside q := by
  obtain ⟨-, row, hdirty, -⟩ := hpq
  have hproc := h.proc q
  cases hq : s.procs q with
  | outside prog =>
    rw [hq] at hproc
    have hown := congrFun hproc.1 k
    rw [State.own_of_self hdirty] at hown
    cases hown
  | inside t scanned body next => exact ⟨_, t, scanned, body, next, hq⟩

/-- As long as a transaction is under way, one of those under way can make its next step. -/
theorem exists_step (h : LockOrdered level s) {top : ℕ} (htop : ∀ k, level k ≤ top)
    (hp : s.Inside p) : ∃ q, s.Inside q ∧ (s.step (.run q)).isSome := by
  have hwaiting (n : ℕ) (p q : P) (k : G.Key) (hn : top - level k = n) (hpq : s.WaitsAt p q k) :
      ∃ r, s.Inside r ∧ (s.step (.run r)).isSome := by
    induction n using Nat.strongRecOn generalizing p q k with
    | ind n ih =>
      have hq := h.inside_of_waitsAt hpq
      rcases step_or_waits hq with hstep | ⟨r, j, hqr⟩
      · exact ⟨q, hq, hstep⟩
      · have hlt := h.level_lt hpq hqr
        have hle := htop j
        exact ih (top - level j) (by omega) q r j rfl hqr
  rcases step_or_waits hp with hstep | ⟨q, k, hpq⟩
  · exact ⟨p, hp, hstep⟩
  · exact hwaiting _ p q k rfl hpq

end LockOrdered

end ScalableBooking.ReadCommitted
