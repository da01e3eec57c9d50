import ScalableBooking.Lib.ReadCommitted

/-!
# Steps of the machine

What can be said of one step without knowing the programs. A step of a process touches the rows
in one of a few ways (`State.Touches`). So no row is ever lost, the rows a process holds are left
alone by the others (`State.step_own_of_next`), and the sequence stays ahead of its table
(`State.Ahead.step`). A step takes no time back and moves only its own process
(`State.step_frame`), which goes on as `Proc.Next` says (`State.step_next`).
-/

namespace ScalableBooking.ReadCommitted

variable {G : Signature} {β ρ : Type}

/-! ### The rows a process holds -/

namespace State

variable {P : Type} [DecidableEq P] {s : State G P ρ} {p q : P}

/-- The writes of the transaction of `p`. Their old versions are the committed ones, because
nobody else commits a row that `p` holds. -/
def own (s : State G P ρ) (p : P) : Writes G := fun k =>
  match s.dirty k with
  | some (q, row) => if q = p then some (s.db k, row) else none
  | none => none

theorem own_of_none {k : G.Key} (h : s.dirty k = none) : s.own p k = none := by
  simp [own, h]

theorem own_of_self {k : G.Key} {row : G.Row k} (h : s.dirty k = some (p, row)) :
    s.own p k = some (s.db k, row) := by
  simp [own, h]

theorem own_of_ne {k : G.Key} {row : G.Row k} (h : s.dirty k = some (q, row)) (hq : q ≠ p) :
    s.own p k = none := by
  simp [own, h, hq]

theorem dirty_of_own {k : G.Key} {old : Option (G.Row k)} {row : G.Row k}
    (h : s.own p k = some (old, row)) : s.dirty k = some (p, row) := by
  rcases hd : s.dirty k with _ | ⟨q, new⟩
  · rw [own_of_none hd] at h
    cases h
  · by_cases hq : q = p
    · subst hq
      rw [own_of_self hd] at h
      cases h
      rfl
    · rw [own_of_ne hd hq] at h
      cases h

theorem own_agrees (s : State G P ρ) (p : P) : (s.own p).Agrees s.db := by
  intro k old row h
  -- three cases everywhere: nobody holds the row, `p` does, another one does
  rcases hd : s.dirty k with _ | ⟨r, new⟩
  · simp [own_of_none hd] at h
  · by_cases hr : r = p
    · subst hr
      simp only [own_of_self hd, Option.some.injEq, Prod.mk.injEq] at h
      exact h.1
    · simp [own_of_ne hd hr] at h

theorem overlay_own (s : State G P ρ) (p : P) : (s.own p).overlay s.db = s.view p := by
  ext1 k
  rcases hd : s.dirty k with _ | ⟨r, row⟩
  · simp [Writes.overlay, own_of_none hd, view, hd]
  · by_cases hr : r = p
    · subst hr
      simp [Writes.overlay, own_of_self hd, view, hd]
    · simp [Writes.overlay, own_of_ne hd hr, view, hd, hr]

/-- A transaction sees its own version of a row, or the committed one. -/
theorem view_cases (s : State G P ρ) (p : P) (k : G.Key) :
    (∃ row, s.dirty k = some (p, row) ∧ s.view p k = some row) ∨
      (∀ row, s.dirty k ≠ some (p, row)) ∧ s.view p k = s.db k := by
  rcases hd : s.dirty k with _ | ⟨r, row⟩
  · refine .inr ⟨?_, by simp [view, hd]⟩
    intro row h
    cases h
  · by_cases hr : r = p
    · subst hr
      exact .inl ⟨row, rfl, by simp [view, hd]⟩
    · refine .inr ⟨?_, by simp [view, hd, hr]⟩
      intro row' h
      cases h
      exact hr rfl

/-- A transaction sees every committed row, in one version or another. -/
theorem db_of_view {k : G.Key} (h : s.view p k = none) : s.db k = none := by
  simp only [view] at h
  split at h
  · split at h
    · cases h
    · exact h
  · exact h

@[simp] theorem goto_procs_self (proc : Proc G ρ) : (s.goto p proc).procs p = proc := by
  simp [goto]

theorem own_write_self (k : G.Key) (row : G.Row k) :
    (s.write p k row).own p = (s.own p).write s.db k row := by
  ext1 j
  by_cases hj : j = k
  · subst hj
    simp [own, write, Writes.write]
  · simp [own, write, Writes.write, hj]

theorem own_write_ne {k : G.Key} (hk : ¬s.Locked p k) (row : G.Row k) (hq : q ≠ p) :
    (s.write p k row).own q = s.own q := by
  ext1 j
  by_cases hj : j = k
  · subst hj
    have hnew : (s.write p j row).own q j = none :=
      own_of_ne (by simp [write]; rfl) hq.symm
    rw [hnew]
    -- nobody else can have had the row that `p` writes
    rcases hd : s.dirty j with _ | ⟨r, old⟩
    · exact (own_of_none hd).symm
    · have hr : r = p := by
        by_contra hr
        exact hk ⟨(r, old), hd, hr⟩
      exact (own_of_ne hd (by rw [hr]; exact hq.symm)).symm
  · simp [own, write, hj]

theorem dirtyWithout_of_none {k : G.Key} (h : s.dirty k = none) :
    s.dirtyWithout p k = none := by
  simp [dirtyWithout, h]

theorem dirtyWithout_self {k : G.Key} {row : G.Row k} (h : s.dirty k = some (p, row)) :
    s.dirtyWithout p k = none := by
  simp [dirtyWithout, h, Option.filter_some]

theorem dirtyWithout_ne {k : G.Key} {row : G.Row k} (h : s.dirty k = some (q, row))
    (hq : q ≠ p) : s.dirtyWithout p k = some (q, row) := by
  simp [dirtyWithout, h, hq, Option.filter_some]

/-- After the end of its transaction a process holds nothing. -/
theorem own_dirtyWithout_self {s' : State G P ρ} (h : s'.dirty = s.dirtyWithout p) :
    s'.own p = Writes.empty := by
  ext1 k
  show s'.own p k = none
  rcases hd : s.dirty k with _ | ⟨r, row⟩
  · exact own_of_none (by rw [h, dirtyWithout_of_none hd])
  · by_cases hr : r = p
    · subst hr
      exact own_of_none (by rw [h, dirtyWithout_self hd])
    · -- a row of another process stays dirty, but it was never one of `p`
      exact own_of_ne (by rw [h, dirtyWithout_ne hd hr]) hr

/-- The end of the transaction of `p` leaves the rows of `q` alone, as long as it does not
change their committed versions. -/
theorem own_dirtyWithout_ne {s' : State G P ρ} (h : s'.dirty = s.dirtyWithout p) (hq : q ≠ p)
    (hdb : ∀ k row, s.dirty k = some (q, row) → s'.db k = s.db k) : s'.own q = s.own q := by
  ext1 k
  rcases hd : s.dirty k with _ | ⟨r, row⟩
  · rw [own_of_none hd, own_of_none (by rw [h, dirtyWithout_of_none hd])]
  · by_cases hr : r = p
    · subst hr
      rw [own_of_ne hd hq.symm, own_of_none (by rw [h, dirtyWithout_self hd])]
    · have hd' : s'.dirty k = some (r, row) := by
        rw [h, dirtyWithout_ne hd hr]
      by_cases hrq : r = q
      · subst hrq
        -- a row that `q` holds keeps the old version it was written over
        rw [own_of_self hd, own_of_self hd', hdb k row hd]
      · rw [own_of_ne hd hrq, own_of_ne hd' hrq]

theorem own_commit_ne (hq : q ≠ p) : (s.commit p).own q = s.own q := by
  refine own_dirtyWithout_ne rfl hq ?_
  intro k row hd
  show s.view p k = s.db k
  -- what `q` holds is not in the view of `p`, so the commit of `p` does not touch it
  simp [view, hd, hq]

theorem own_rollback_ne (hq : q ≠ p) : (s.rollback p).own q = s.own q :=
  own_dirtyWithout_ne rfl hq fun _ _ _ => rfl

/-- Of the statements of a transaction only its commit changes the committed database. -/
theorem stepTx_db {s' : State G P ρ} {t : ℕ} {scanned : Bool} {body : Tx G β}
    {next : β → Prog G ρ} (hbody : ∀ b, body ≠ .ret b)
    (hs : s.stepTx p t scanned body next = some s') : s'.db = s.db := by
  cases body with
  | ret b => exact absurd rfl (hbody b)
  | fail e =>
    cases hs
    rfl
  | now k =>
    cases hs
    rfl
  | update k cond set cont =>
    simp only [stepTx] at hs
    split at hs
    · split at hs
      · cases hs
      · cases hs
        rfl
    · split at hs
      · cases hs
        rfl
      · split at hs
        · cases hs
        · cases hs
          rfl
  | insert refs row cont =>
    simp only [stepTx] at hs
    -- inserted or refused, nothing is committed
    split at hs <;> cases hs <;> rfl

end State

/-- How a process goes on, when it makes a step at the time `t`. -/
inductive Proc.Next (t : ℕ) : Proc G ρ → Proc G ρ → Prop where
  | now (next : ℕ → Prog G ρ) : Next t (.outside (.now next)) (.outside (next t))
  | select (k : G.Key) (cond : G.Row k → Bool) (next : Option (G.Row k) → Prog G ρ) (db : Db G) :
      Next t (.outside (.select k cond next)) (.outside (next ((db k).filter cond)))
  | effect (x : G.Effect) (next : G.Reply → Prog G ρ) (r : G.Reply) :
      Next t (.outside (.effect x next)) (.outside (next r))
  | begin {β : Type} (body : Tx G β) (next : β → Prog G ρ) :
      Next t (.outside (.transaction body next)) (.inside t false body next)
  | statement {β : Type} (start : ℕ) (scanned scanned' : Bool) (body body' : Tx G β)
      (next : β → Prog G ρ) :
      Next t (.inside start scanned body next) (.inside start scanned' body' next)
  | commit {β : Type} (start : ℕ) (scanned : Bool) (b : β) (next : β → Prog G ρ) :
      Next t (.inside start scanned (.ret b) next) (.outside (next b))
  | fail (proc : Proc G ρ) (e : G.Error) : Next t proc (.outside (.fail e))

namespace State

variable {P : Type} [DecidableEq P] {s : State G P ρ} {p q : P}

/-! ### What a step does to the processes -/

/-- What a step of `p` does to the rows: nothing, the end of a transaction, or one new version of
a row. -/
inductive Touches (s : State G P ρ) (p : P) : State G P ρ → Prop where
  | nothing : Touches s p s
  | commit : Touches s p (s.commit p)
  | rollback : Touches s p (s.rollback p)
  | write (k : G.Key) (row : G.Row k) (hrow : (s.view p k).isSome) (hlock : ¬s.Locked p k) :
      Touches s p (s.write p k row)
  | insert (row : G.Row (G.serial s.nextId)) (hrow : s.view p (G.serial s.nextId) = none) :
      Touches s p ({ s with nextId := s.nextId + 1 }.write p (G.serial s.nextId) row)
  | refuse : Touches s p ({ s with nextId := s.nextId + 1 }.rollback p)

theorem stepTx_touches {s' : State G P ρ} {t : ℕ} {scanned : Bool} {body : Tx G β}
    {next : β → Prog G ρ} (hs : s.stepTx p t scanned body next = some s') :
    ∃ r proc, s.Touches p r ∧ s' = r.goto p proc := by
  cases body with
  | ret b =>
    cases hs
    exact ⟨_, _, .commit, rfl⟩
  | fail e =>
    cases hs
    exact ⟨_, _, .rollback, rfl⟩
  | now k =>
    cases hs
    exact ⟨_, _, .nothing, rfl⟩
  | update k cond set cont =>
    simp only [stepTx] at hs
    cases hrow : (s.view p k).filter cond with
    | none =>
      rw [hrow] at hs
      obtain ⟨-, hs⟩ := Option.ite_none_left_eq_some.mp hs
      cases hs
      exact ⟨_, _, .nothing, rfl⟩
    | some row =>
      rw [hrow] at hs
      -- the scan finds the row, and the next statement step writes it, if nobody else holds it
      obtain ⟨hview, -⟩ := Option.filter_eq_some_iff.mp hrow
      simp only [] at hs
      split at hs
      · cases hs
        exact ⟨_, _, .nothing, rfl⟩
      · obtain ⟨hlock, hs⟩ := Option.ite_none_left_eq_some.mp hs
        cases hs
        exact ⟨_, _, .write k _ (by simp [hview]) hlock, rfl⟩
  | insert refs row cont =>
    simp only [stepTx] at hs
    split at hs
    · rename_i hkeys
      cases hs
      exact ⟨_, _, .insert _ (Option.isNone_iff_eq_none.mp hkeys.1), rfl⟩
    · cases hs
      exact ⟨_, _, .refuse, rfl⟩

theorem step_touches {s' : State G P ρ} {e : Event G P} (hs : s.step e = some s')
    (he : e.actor = some p) : ∃ r proc, s.Touches p r ∧ s' = r.goto p proc := by
  cases e with
  | tick d => cases he
  | run q =>
    cases he
    simp only [step] at hs
    split at hs
    · exact ⟨_, _, .nothing, (Option.some.inj hs).symm⟩
    · exact ⟨_, _, .nothing, (Option.some.inj hs).symm⟩
    · exact ⟨_, _, .nothing, (Option.some.inj hs).symm⟩
    · cases hs
    · exact stepTx_touches hs
  | reply q r =>
    cases he
    simp only [step] at hs
    split at hs
    · exact ⟨_, _, .nothing, (Option.some.inj hs).symm⟩
    · cases hs
  | fault q =>
    cases he
    simp only [step] at hs
    split at hs
    · exact ⟨_, _, .nothing, (Option.some.inj hs).symm⟩
    · exact ⟨_, _, .nothing, (Option.some.inj hs).symm⟩
    · exact ⟨_, _, .rollback, (Option.some.inj hs).symm⟩
    · cases hs

/-- An event is the passing of time, or a step of its process. -/
theorem step_cases {s' : State G P ρ} {e : Event G P} (hs : s.step e = some s') :
    (∃ d, e = .tick d ∧ s' = { s with clock := s.clock + d }) ∨
      ∃ p r proc, e.actor = some p ∧ s.Touches p r ∧ s' = r.goto p proc := by
  cases he : e.actor with
  | some p =>
    obtain ⟨r, proc, htouch, rfl⟩ := step_touches hs he
    exact .inr ⟨p, r, proc, rfl, htouch, rfl⟩
  | none =>
    cases e with
    | tick d =>
      cases hs
      exact .inl ⟨d, rfl, rfl⟩
    | _ => cases he

theorem Touches.frame {r : State G P ρ} (h : s.Touches p r) :
    r.clock = s.clock ∧ r.procs = s.procs := by
  cases h <;> exact ⟨rfl, rfl⟩

/-- A step takes no time back, and moves only its own process. -/
theorem step_frame {s' : State G P ρ} {e : Event G P} (hs : s.step e = some s') :
    s.clock ≤ s'.clock ∧ ∀ q, e.actor ≠ some q → s'.procs q = s.procs q := by
  obtain ⟨d, rfl, rfl⟩ | ⟨p, r, proc, he, htouch, rfl⟩ := step_cases hs
  · exact ⟨Nat.le_add_right _ _, fun _ _ => rfl⟩
  · obtain ⟨hclock, hprocs⟩ := htouch.frame
    refine ⟨Nat.le_of_eq hclock.symm, ?_⟩
    intro q hq
    have hne : q ≠ p := by
      rintro rfl
      exact hq he
    simp [goto, hne, hprocs]

/-- No row is ever lost. -/
theorem isSome_step {s' : State G P ρ} {e : Event G P} (hs : s.step e = some s') {k : G.Key}
    (hk : (s.db k).isSome) : (s'.db k).isSome := by
  obtain ⟨d, rfl, rfl⟩ | ⟨p, r, proc, -, htouch, rfl⟩ := step_cases hs
  · exact hk
  · cases htouch with
    | commit =>
      show (s.view p k).isSome
      by_contra hview
      rw [db_of_view (Option.not_isSome_iff_eq_none.mp hview)] at hk
      cases hk
    | _ => exact hk

/-- The call of `p` has come to its end. -/
def Finished (s : State G P ρ) (p : P) : Prop :=
  (∃ a, s.procs p = .outside (.ret a)) ∨ ∃ e, s.procs p = .outside (.fail e)

/-- A transaction waits for nothing but the lock of the row it is about to update. -/
theorem isSome_stepTx {t : ℕ} {scanned : Bool} {body : Tx G β} {next : β → Prog G ρ}
    (h : ∀ k cond set cont, body = .update k cond set cont → ¬s.Locked p k) :
    (s.stepTx p t scanned body next).isSome := by
  cases body with
  | update k cond set cont =>
    have hlock := h k cond set cont rfl
    simp only [stepTx, hlock, and_false, if_false]
    split
    · rfl
    · split <;> rfl
  | insert refs row cont =>
    simp only [stepTx]
    split <;> rfl
  | _ => rfl

/-- The property `φ` holds all along a run. -/
def Along (φ : State G P ρ → Prop) (s : State G P ρ) : List (Event G P) → Prop
  | [] => φ s
  | e :: es => φ s ∧ ∀ s', s.step e = some s' → s'.Along φ es

theorem Along.of_forall {φ : State G P ρ → Prop} (h : ∀ s, φ s) (es : List (Event G P)) :
    s.Along φ es := by
  induction es generalizing s with
  | nil => exact h s
  | cons e es ih => exact ⟨h s, fun _ _ => ih⟩

theorem Along.head {φ : State G P ρ → Prop} {es : List (Event G P)} (h : s.Along φ es) : φ s := by
  cases es with
  | nil => exact h
  | cons e es => exact h.1

theorem Along.last {φ : State G P ρ → Prop} {es : List (Event G P)} {s' : State G P ρ}
    (h : s.Along φ es) (hrun : s.run es = some s') : φ s' := by
  induction es generalizing s with
  | nil =>
    cases hrun
    exact h
  | cons e es ih =>
    obtain ⟨s₁, hs, hrun⟩ := Option.bind_eq_some_iff.mp hrun
    exact ih (h.2 s₁ hs) hrun

/-! ### The sequence -/

/-- The sequence is ahead of its table: no row has a number that is still to come. -/
def Ahead (s : State G P ρ) : Prop :=
  ∀ n, s.nextId ≤ n → s.db (G.serial n) = none ∧ s.dirty (G.serial n) = none

theorem Ahead.view (h : s.Ahead) {n : ℕ} (hn : s.nextId ≤ n) (p : P) :
    s.view p (G.serial n) = none := by
  obtain ⟨hdb, hdirty⟩ := h n hn
  simp [State.view, hdirty, hdb]

theorem Ahead.touches (h : s.Ahead) {r : State G P ρ} (htouch : s.Touches p r) : r.Ahead := by
  intro n hn
  cases htouch with
  | nothing => exact h n hn
  | commit => exact ⟨h.view hn p, dirtyWithout_of_none (h n hn).2⟩
  | rollback => exact ⟨(h n hn).1, dirtyWithout_of_none (h n hn).2⟩
  | write k row hrow hlock =>
    refine ⟨(h n hn).1, ?_⟩
    have hne : G.serial n ≠ k := by
      rintro rfl
      -- an update finds its row, so the row has a number given out before
      rw [h.view hn p] at hrow
      cases hrow
    show Function.update s.dirty k (some (p, row)) (G.serial n) = none
    rw [Function.update_of_ne hne]
    exact (h n hn).2
  | insert row hrow =>
    have hle : s.nextId ≤ n := Nat.le_of_succ_le hn
    refine ⟨(h n hle).1, ?_⟩
    have hne : G.serial n ≠ G.serial s.nextId := by
      intro heq
      rw [G.serial_injective heq] at hn
      exact Nat.lt_irrefl _ hn
    show Function.update s.dirty (G.serial s.nextId) (some (p, row)) (G.serial n) = none
    rw [Function.update_of_ne hne]
    exact (h n hle).2
  | refuse =>
    have hle : s.nextId ≤ n := Nat.le_of_succ_le hn
    exact ⟨(h n hle).1, dirtyWithout_of_none (h n hle).2⟩

/-- Every step keeps the sequence ahead. -/
theorem Ahead.step (h : s.Ahead) {s' : State G P ρ} {e : Event G P} (hs : s.step e = some s') :
    s'.Ahead := by
  obtain ⟨d, rfl, rfl⟩ | ⟨p, r, proc, -, htouch, rfl⟩ := step_cases hs
  · exact h
  · show r.Ahead
    exact h.touches htouch

/-- The rows a process holds are not touched by the steps of the others, if nobody holds a row that
the sequence has still to number. -/
theorem step_own_of_next (h : s.db (G.serial s.nextId) = none → s.dirty (G.serial s.nextId) = none)
    {s' : State G P ρ} {e : Event G P} (hs : s.step e = some s') (hq : e.actor ≠ some q) :
    s'.own q = s.own q := by
  obtain ⟨d, rfl, rfl⟩ | ⟨p, r, proc, he, htouch, rfl⟩ := step_cases hs
  · rfl
  · have hne : q ≠ p := by
      rintro rfl
      exact hq he
    show r.own q = s.own q
    cases htouch with
    | nothing => rfl
    | commit => exact own_commit_ne hne
    | rollback => exact own_rollback_ne hne
    | write k row hrow hlock => exact own_write_ne hlock row hne
    -- a number that is free has not been written by anyone
    | insert row hrow =>
      refine own_write_ne ?_ row hne
      rintro ⟨v, hv, -⟩
      rw [show s.dirty (G.serial s.nextId) = none from h (db_of_view hrow)] at hv
      cases hv
    | refuse => exact own_rollback_ne hne

theorem step_own (h : s.Ahead) {s' : State G P ρ} {e : Event G P} (hs : s.step e = some s')
    (hq : e.actor ≠ some q) : s'.own q = s.own q :=
  step_own_of_next (fun _ => (h _ (Nat.le_refl _)).2) hs hq

/-- How the process that makes the step goes on. -/
theorem step_next {s' : State G P ρ} {e : Event G P} (hs : s.step e = some s')
    (he : e.actor = some p) : (s.procs p).Next s.clock (s'.procs p) := by
  have hgoto {r : State G P ρ} {proc : Proc G ρ} (hnext : (s.procs p).Next s.clock proc)
      (hs : r.goto p proc = s') : (s.procs p).Next s.clock (s'.procs p) := by
    subst hs
    rw [goto_procs_self]
    exact hnext
  cases e with
  | tick d => cases he
  | run q =>
    cases he
    simp only [step] at hs
    cases hp : s.procs p with
    | outside prog =>
      rw [hp] at hs hgoto
      cases prog with
      | ret a => cases hs
      | fail e => cases hs
      | now next => exact hgoto (.now next) (Option.some.inj hs)
      | select k cond next => exact hgoto (.select k cond next _) (Option.some.inj hs)
      | effect x next => cases hs
      | transaction body next => exact hgoto (.begin body next) (Option.some.inj hs)
    | inside t scanned body next =>
      rw [hp] at hs hgoto
      cases body with
      | ret b => exact hgoto (.commit t scanned b next) (Option.some.inj hs)
      | fail e => exact hgoto (.fail _ e) (Option.some.inj hs)
      | now k => exact hgoto (.statement t scanned _ _ _ next) (Option.some.inj hs)
      | update k cond set cont =>
        simp only [stepTx] at hs
        split at hs
        · split at hs
          · cases hs
          · exact hgoto (.statement t scanned _ _ _ next) (Option.some.inj hs)
        · -- found: the row is remembered by the first step, and written by the second
          split at hs
          · exact hgoto (.statement t scanned _ _ _ next) (Option.some.inj hs)
          · split at hs
            · cases hs
            · exact hgoto (.statement t scanned _ _ _ next) (Option.some.inj hs)
      | insert refs row cont =>
        simp only [stepTx] at hs
        split at hs
        · exact hgoto (.statement t scanned _ _ _ next) (Option.some.inj hs)
        · exact hgoto (.fail _ _) (Option.some.inj hs)
  | reply q r =>
    cases he
    simp only [step] at hs
    split at hs
    · rename_i x next hp
      rw [hp] at hgoto ⊢
      exact hgoto (.effect x next r) (Option.some.inj hs)
    · cases hs
  | fault q =>
    cases he
    simp only [step] at hs
    split at hs
    · exact hgoto (.fail _ _) (Option.some.inj hs)
    · exact hgoto (.fail _ _) (Option.some.inj hs)
    · exact hgoto (.fail _ _) (Option.some.inj hs)
    · cases hs

/-- A process commits nothing when another one makes a step. -/
theorem commits_of_ne {e : Event G P} (h : e.actor ≠ some p) : s.commits p e = [] := by
  cases e with
  | run q =>
    have hq : q ≠ p := fun heq => h (by rw [heq]; rfl)
    simp only [commits, hq, if_false]
    split <;> rfl
  | tick d => rfl
  | reply q r => rfl
  | fault q => rfl

/-- What is committed is committed by the process that makes the step. -/
theorem actor_of_commits {e : Event G P} {c : Db G × Db G} (hc : c ∈ s.commits p e) :
    e.actor = some p := by
  by_contra he
  rw [commits_of_ne he] at hc
  cases hc

/-- A process outside a transaction commits nothing. -/
theorem commits_of_outside {e : Event G P} {prog : Prog G ρ} (hp : s.procs p = .outside prog) :
    s.commits p e = [] := by
  cases e with
  | run q =>
    by_cases hq : q = p
    · subst hq
      simp [commits, hp]
    · exact commits_of_ne fun heq => hq (Option.some.inj heq)
  | tick d => rfl
  | reply q r => rfl
  | fault q => rfl

/-- A step commits nothing and leaves the committed database as it is, or it is the end of a
transaction. -/
theorem commit_cases {s' : State G P ρ} {e : Event G P} (hs : s.step e = some s') :
    s'.db = s.db ∧ (∀ q, s.commits q e = []) ∨
      ∃ (p : P) (β : Type) (t : ℕ) (scanned : Bool) (b : β) (next : β → Prog G ρ),
        e = .run p ∧ s.procs p = .inside t scanned (.ret b) next ∧ s'.db = s.view p := by
  cases e with
  | tick d =>
    cases hs
    exact .inl ⟨rfl, fun _ => rfl⟩
  | run p =>
    simp only [step] at hs
    cases hp : s.procs p with
    | outside prog =>
      rw [hp] at hs
      cases prog <;> cases hs <;> exact .inl ⟨rfl, fun q => by simp [commits, hp]⟩
    | inside t scanned body next =>
      rw [hp] at hs
      -- only the end of the body commits
      by_cases hbody : ∃ b, body = .ret b
      · obtain ⟨b, rfl⟩ := hbody
        cases hs
        exact .inr ⟨p, _, t, scanned, b, next, rfl, hp, rfl⟩
      · refine .inl ⟨stepTx_db (fun b hb => hbody ⟨b, hb⟩) hs, ?_⟩
        intro q
        cases body with
        | ret b => exact absurd ⟨b, rfl⟩ hbody
        | _ => simp [commits, hp]
  | reply p r =>
    simp only [step] at hs
    split at hs
    · cases hs
      exact .inl ⟨rfl, fun _ => rfl⟩
    · cases hs
  | fault p =>
    simp only [step] at hs
    split at hs <;> cases hs <;> exact .inl ⟨rfl, fun _ => rfl⟩

/-- A step changes the committed database only if it is the end of a transaction. -/
theorem db_of_step {s' : State G P ρ} {e : Event G P} (hs : s.step e = some s') :
    s'.db = s.db ∨ ∃ (p : P) (β : Type) (t : ℕ) (scanned : Bool) (b : β) (next : β → Prog G ρ),
      e = .run p ∧ s.procs p = .inside t scanned (.ret b) next ∧ s'.db = s.view p :=
  (commit_cases hs).imp_left And.left

/-- A transaction that is about to commit can do so. -/
theorem exists_step_of_committing {e : Event G P} {t : ℕ} (h : s.committing e = some t) :
    ∃ s', s.step e = some s' := by
  cases e with
  | run p =>
    simp only [committing] at h
    split at h
    · rename_i hp
      exact ⟨_, by rw [step, hp]; rfl⟩
    · cases h
  | _ => cases h

/-- What a step commits is the change it makes to the committed database. -/
theorem commits_of_mem {s' : State G P ρ} {e : Event G P} {c : Db G × Db G}
    (hs : s.step e = some s') (hc : c ∈ s.commits p e) : c = (s.db, s'.db) := by
  cases e with
  | tick d => cases hc
  | reply q r => cases hc
  | fault q => cases hc
  | run q =>
    simp only [commits] at hc
    split at hc
    · rename_i start scanned b next hq
      obtain ⟨rfl, hc⟩ := List.mem_ite_nil_right.mp hc
      simp only [step, hq, stepTx, Option.some.injEq] at hs
      subst hs
      exact List.mem_singleton.mp hc
    · cases hc

/-- The commits of a run in their order, each with its process. -/
def commitLog (s : State G P ρ) : List (Event G P) → List (P × Db G × Db G)
  | [] => []
  | e :: es => (e.actor.elim [] fun p => (s.commits p e).map fun c => (p, c)) ++
      (s.step e).elim [] fun s' => s'.commitLog es

/-- A run in two parts. -/
theorem run_append {es es' : List (Event G P)} :
    s.run (es ++ es') = (s.run es).bind fun s' => s'.run es' := by
  induction es generalizing s with
  | nil => rfl
  | cons e es ih => simp only [List.cons_append, run, Option.bind_assoc, ih]

/-- An answer moves the process on, and nothing else. -/
theorem step_reply {s' : State G P ρ} {r : G.Reply} (hs : s.step (.reply p r) = some s') :
    ∃ x next, s.procs p = .outside (.effect x next) ∧ s' = s.goto p (.outside (next r)) := by
  simp only [step] at hs
  split at hs
  · rename_i x next hp
    exact ⟨x, next, hp, (Option.some.inj hs).symm⟩
  · cases hs

/-- A process that has returned makes no step. -/
theorem actor_ne_of_ret {s' : State G P ρ} {e : Event G P} {a : ρ}
    (hp : s.procs p = .outside (.ret a)) (hs : s.step e = some s') : e.actor ≠ some p := by
  intro he
  cases e with
  | tick d => cases he
  | _ =>
    cases he
    simp [step, hp] at hs

/-- A process that stands at an effect makes no step but by an answer. -/
theorem step_of_effect {s' : State G P ρ} {e : Event G P} {x : G.Effect}
    {next : G.Reply → Prog G ρ} (hp : s.procs p = .outside (.effect x next))
    (hs : s.step e = some s') (he : e.actor = some p) : ∃ r, e = .reply p r := by
  cases e with
  | tick d => cases he
  | run q =>
    cases he
    simp [step, hp] at hs
  | reply q r =>
    cases he
    exact ⟨r, rfl⟩
  | fault q =>
    cases he
    simp [step, hp] at hs

end State

/-! ### A machine with one process -/

namespace State

variable {s : State G Unit ρ}

/-- Nobody else holds a row. -/
theorem not_locked_alone {k : G.Key} : ¬s.Locked () k := by
  rintro ⟨v, -, hv⟩
  exact hv rfl

/-- The end of the transaction leaves nothing uncommitted. -/
theorem dirtyWithout_alone : s.dirtyWithout () = fun _ => none := by
  ext1 k
  cases hk : s.dirty k <;> simp [dirtyWithout, hk, Option.filter_some]

/-- With nothing written, the process sees what is committed. -/
theorem view_of_clean (h : s.dirty = fun _ => none) : s.view () = s.db := by
  ext1 k
  simp [view, h]

/-- What the process writes, it sees. -/
theorem view_write {k : G.Key} {row : G.Row k} :
    (s.write () k row).view () = Function.update (s.view ()) k (some row) := by
  ext1 j
  by_cases hj : j = k
  · subst hj
    simp [view, write]
  · simp [view, write, hj]

end State

end ScalableBooking.ReadCommitted
