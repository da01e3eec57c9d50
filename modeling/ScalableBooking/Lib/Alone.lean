import ScalableBooking.Lib.Steps

/-!
# A program on its own

What a program comes to if nothing else uses the database while it runs and no connection breaks.
The clock can go on between two statements, and an effect can have any reply.

* `Tx.Alone`, `Prog.Alone`: the weakest precondition, with one postcondition for the value returned
  and one for the error thrown.
* `CanEnd`: how the program can end on the machine. It can end (`exists_canEnd`), and as its weakest
  precondition says (`Prog.Alone.of_canEnd`).
* `Tx.guard`, `Prog.guard`: the program on a store whose columns are too narrow for some keys and
  some rows. A statement that gives such a key to a query, or would write such a row, fails.
-/

namespace ScalableBooking.ReadCommitted

variable {G : Signature} {α β ρ : Type}

/-! ### Weakest preconditions -/

/-- What holds before a transaction body that began at `start`, on the database that it sees and the
next number of the sequence, if `K` holds at its commit and `E` of the error it throws. -/
def Tx.Alone (start : ℕ) (K : α → Db G → ℕ → Prop) (E : G.Error → Prop) :
    Tx G α → Db G → ℕ → Prop
  | ret a, db, n => K a db n
  | fail e, _, _ => E e
  | now next, db, n => ∀ t, (next t).Alone start K E db n
  | update k cond set next, db, n =>
      match (db k).filter cond with
      | none => (next none).Alone start K E db n
      | some row =>
          (next (some (set row))).Alone start K E (Function.update db k (some (set row))) n
  | insert refs row next, db, n =>
      if (db (G.serial n)).isNone ∧ ∀ k ∈ refs, (db k).isSome then
        (next n (row n start)).Alone start K E
          (Function.update db (G.serial n) (some (row n start))) (n + 1)
      else E G.fault

/-- What holds before a program. -/
def Prog.Alone (K : α → Db G → ℕ → Prop) (E : G.Error → Prop) : Prog G α → Db G → ℕ → Prop
  | ret a, db, n => K a db n
  | fail e, _, _ => E e
  | now next, db, n => ∀ t, (next t).Alone K E db n
  | select k cond next, db, n => (next ((db k).filter cond)).Alone K E db n
  | effect _ next, db, n => ∀ r, (next r).Alone K E db n
  | transaction body next, db, n =>
      ∀ start, body.Alone start (fun b db' n' => (next b).Alone K E db' n') E db n

section Bind

variable {K : β → Db G → ℕ → Prop} {E : G.Error → Prop}

@[simp] theorem Tx.alone_bind {start : ℕ} (x : Tx G α) (f : α → Tx G β) (db : Db G) (n : ℕ) :
    (x.bind f).Alone start K E db n ↔
      x.Alone start (fun a db' n' => (f a).Alone start K E db' n') E db n := by
  induction x generalizing db n with
  | ret a => exact Iff.rfl
  | fail e => exact Iff.rfl
  | now next ih => simp only [bind, Alone, ih]
  | update k cond set next ih =>
    simp only [bind, Alone]
    split
    · exact ih none db n
    · exact ih (some _) _ n
  | insert refs row next ih => simp only [bind, Alone, ih]

@[simp] theorem Prog.alone_bind (x : Prog G α) (f : α → Prog G β) (db : Db G) (n : ℕ) :
    (x.bind f).Alone K E db n ↔
      x.Alone (fun a db' n' => (f a).Alone K E db' n') E db n := by
  induction x generalizing db n with
  | ret a => exact Iff.rfl
  | fail e => exact Iff.rfl
  | now next ih => simp only [bind, Alone, ih]
  | select k cond next ih => simp only [bind, Alone, ih]
  | effect x next ih => simp only [bind, Alone, ih]
  | transaction body next ih => simp only [bind, Alone, ih]

end Bind

/-- Weaker postconditions. -/
theorem Tx.Alone.mono {start : ℕ} {K K' : α → Db G → ℕ → Prop} {E E' : G.Error → Prop}
    (hK : ∀ a db n, K a db n → K' a db n) (hE : ∀ e, E e → E' e) {x : Tx G α} {db : Db G} {n : ℕ}
    (h : x.Alone start K E db n) : x.Alone start K' E' db n := by
  induction x generalizing db n with
  | ret a => exact hK a db n h
  | fail e => exact hE e h
  | now next ih => exact fun t => ih t (h t)
  -- the store decides whether the row is there, for both postconditions alike
  | update k cond set next ih =>
    rw [Alone] at h ⊢
    split
    · rename_i hrow
      simp only [hrow] at h
      exact ih none h
    · rename_i row hrow
      simp only [hrow] at h
      exact ih _ h
  | insert refs row next ih =>
    rw [Alone] at h ⊢
    split
    · rename_i hkeys
      rw [if_pos hkeys] at h
      exact ih n _ h
    · rename_i hkeys
      rw [if_neg hkeys] at h
      exact hE _ h

theorem Prog.Alone.mono {K K' : α → Db G → ℕ → Prop} {E E' : G.Error → Prop}
    (hK : ∀ a db n, K a db n → K' a db n) (hE : ∀ e, E e → E' e) {x : Prog G α} {db : Db G} {n : ℕ}
    (h : x.Alone K E db n) : x.Alone K' E' db n := by
  induction x generalizing db n with
  | ret a => exact hK a db n h
  | fail e => exact hE e h
  | now next ih => exact fun t => ih t (h t)
  | select k cond next ih => exact ih _ h
  | effect x next ih => exact fun r => ih r (h r)
  | transaction body next ih =>
    intro start
    exact (h start).mono (fun b _ _ hb => ih b hb) hE

/-! ### The machine with one process -/

/-- No connection breaks. -/
def NoFault {P : Type} (es : List (Event G P)) : Prop := ∀ p, Event.fault p ∉ es

/-- The program that has ended so. -/
def Prog.done : Except G.Error ρ → Prog G ρ
  | .ok a => ret a
  | .error e => fail e

/-- How the program can end, from a committed database and a sequence: with a value or an error. -/
def CanEnd (code : Prog G ρ) (db : Db G) (nextId : ℕ) (o : Except G.Error ρ) : Prop :=
  ∃ (clock : ℕ) (es : List (Event G Unit)) (s : State G Unit ρ), NoFault es ∧
    (State.initial db nextId clock fun _ => code).run es = some s ∧
    s.procs () = .outside (.done o)

namespace State

variable {s s' : State G Unit ρ} {es : List (Event G Unit)}

/-- Where the process stands, its weakest precondition holds. -/
def Alone (K : ρ → Db G → ℕ → Prop) (E : G.Error → Prop) (s : State G Unit ρ) : Prop :=
  match s.procs () with
  | .outside prog => (∀ k, s.dirty k = none) ∧ prog.Alone K E s.db s.nextId
  | .inside t _ body next =>
      body.Alone t (fun b db n => (next b).Alone K E db n) E (s.view ()) s.nextId

section Preserved

variable {K : ρ → Db G → ℕ → Prop} {E : G.Error → Prop}

theorem alone_outside {prog : Prog G ρ} (hp : s.procs () = .outside prog) :
    s.Alone K E ↔ (∀ k, s.dirty k = none) ∧ prog.Alone K E s.db s.nextId := by
  rw [Alone, hp]

theorem alone_inside {t : ℕ} {scanned : Bool} {body : Tx G β} {next : β → Prog G ρ}
    (hp : s.procs () = .inside t scanned body next) :
    s.Alone K E ↔
      body.Alone t (fun b db n => (next b).Alone K E db n) E (s.view ()) s.nextId := by
  rw [Alone, hp]

/-- One statement of a transaction. -/
theorem Alone.stepTx {t : ℕ} {scanned : Bool} {body : Tx G β} {next : β → Prog G ρ}
    (h : body.Alone t (fun b db n => (next b).Alone K E db n) E (s.view ()) s.nextId)
    (hs : s.stepTx () t scanned body next = some s') : s'.Alone K E := by
  cases body with
  | ret b =>
    cases hs
    exact (alone_outside (goto_procs_self _)).mpr ⟨congrFun dirtyWithout_alone, h⟩
  | fail e =>
    cases hs
    exact (alone_outside (goto_procs_self _)).mpr ⟨congrFun dirtyWithout_alone, h⟩
  | now k =>
    cases hs
    exact (alone_inside (goto_procs_self _)).mpr (h s.clock)
  | update k cond set cont =>
    simp only [State.stepTx, not_locked_alone, and_false, if_false] at hs
    rw [Tx.Alone] at h
    split at hs
    · rename_i hrow
      cases hs
      rw [hrow] at h
      exact (alone_inside (goto_procs_self _)).mpr h
    · rename_i row hrow
      split at hs
      · cases hs
        -- found, and still to be written
        exact (alone_inside (goto_procs_self _)).mpr (by rw [Tx.Alone]; exact h)
      · cases hs
        simp only [hrow] at h
        rw [← view_write] at h
        exact (alone_inside (goto_procs_self _)).mpr h
  | insert refs row cont =>
    simp only [State.stepTx] at hs
    rw [Tx.Alone] at h
    split at hs
    · rename_i hkeys
      cases hs
      rw [if_pos hkeys, ← view_write] at h
      exact (alone_inside (goto_procs_self _)).mpr h
    · rename_i hkeys
      cases hs
      rw [if_neg hkeys] at h
      exact (alone_outside (goto_procs_self _)).mpr ⟨congrFun dirtyWithout_alone, h⟩

/-- A step without a fault. -/
theorem Alone.step (h : s.Alone K E) {e : Event G Unit} (he : ∀ p, e ≠ .fault p)
    (hs : s.step e = some s') : s'.Alone K E := by
  cases e with
  | tick d =>
    cases hs
    exact h
  | run p =>
    simp only [State.step] at hs
    cases hp : s.procs () with
    | inside t scanned body next =>
      rw [hp] at hs
      exact .stepTx ((alone_inside hp).mp h) hs
    | outside prog =>
      obtain ⟨hclean, hprog⟩ := (alone_outside hp).mp h
      rw [hp] at hs
      cases prog with
      | ret a => cases hs
      | fail e => cases hs
      | effect x next => cases hs
      | now next =>
        cases hs
        exact (alone_outside (goto_procs_self _)).mpr ⟨hclean, hprog s.clock⟩
      | select k cond next =>
        cases hs
        exact (alone_outside (goto_procs_self _)).mpr ⟨hclean, hprog⟩
      | transaction body next =>
        cases hs
        refine (alone_inside (goto_procs_self _)).mpr ?_
        -- nothing is written yet, so the transaction sees what is committed
        rw [show ((s.goto () (.inside s.clock false body next)).view ()) = s.view () from rfl,
          view_of_clean (funext hclean)]
        exact hprog s.clock
  | reply p r =>
    simp only [State.step] at hs
    split at hs
    · rename_i x next hp
      cases hs
      obtain ⟨hclean, hprog⟩ := (alone_outside hp).mp h
      exact (alone_outside (goto_procs_self _)).mpr ⟨hclean, hprog r⟩
    · cases hs
  | fault p => exact absurd rfl (he p)

theorem Alone.run (h : s.Alone K E) (hes : NoFault es) (hrun : s.run es = some s') :
    s'.Alone K E := by
  induction es generalizing s with
  | nil =>
    cases hrun
    exact h
  | cons e es ih =>
    obtain ⟨s₁, hs, hrun⟩ := Option.bind_eq_some_iff.mp hrun
    have he : ∀ p, e ≠ .fault p := by
      rintro p rfl
      exact hes p List.mem_cons_self
    exact ih (h.step he hs) (fun p hp => hes p (List.mem_cons_of_mem _ hp)) hrun

end Preserved

/-! ### The end -/

/-- The process can come to its end. -/
def CanFinish (s : State G Unit ρ) : Prop :=
  ∃ (es : List (Event G Unit)) (s' : State G Unit ρ) (o : Except G.Error ρ), NoFault es ∧
    s.run es = some s' ∧ s'.procs () = .outside (.done o)

/-- It can if it can after one more step. -/
theorem CanFinish.of_step {e : Event G Unit} (he : ∀ p, e ≠ .fault p) (hs : s.step e = some s')
    (h : s'.CanFinish) : s.CanFinish := by
  obtain ⟨es, s₁, o, hes, hrun, hp⟩ := h
  refine ⟨e :: es, s₁, o, ?_, ?_, hp⟩
  · intro p hmem
    obtain heq | hmem := List.mem_cons.mp hmem
    · exact he p heq.symm
    · exact hes p hmem
  · rw [run, hs, Option.bind_some, hrun]

theorem step_run_inside {t : ℕ} {scanned : Bool} {body : Tx G β} {next : β → Prog G ρ}
    (hp : s.procs () = .inside t scanned body next) :
    s.step (.run ()) = s.stepTx () t scanned body next := by
  rw [step, hp]

/-- A transaction comes to its end if all that can follow it does. -/
theorem canFinish_of_inside {next : β → Prog G ρ}
    (hnext : ∀ (s : State G Unit ρ) (b : β), s.procs () = .outside (next b) → s.CanFinish)
    {body : Tx G β} {t : ℕ} {scanned : Bool} (hp : s.procs () = .inside t scanned body next) :
    s.CanFinish := by
  induction body generalizing s scanned with
  | ret b =>
    exact .of_step (by simp) (step_run_inside hp) (hnext _ b (goto_procs_self _))
  | fail e =>
    exact .of_step (by simp) (step_run_inside hp)
      ⟨[], _, .error e, by simp [NoFault], rfl, goto_procs_self _⟩
  | now k ih =>
    exact .of_step (by simp) (step_run_inside hp) (ih s.clock (goto_procs_self _))
  | update k cond set cont ih =>
    cases hrow : (s.view () k).filter cond with
    | none =>
      have hs : s.step (.run ()) = some (s.goto () (.inside t false (cont none) next)) := by
        simp [step_run_inside hp, stepTx, hrow, not_locked_alone]
      exact .of_step (by simp) hs (ih none (goto_procs_self _))
    | some row =>
      -- once it has been found the row can be written
      have hwrite (s : State G Unit ρ)
          (hp : s.procs () = .inside t true (.update k cond set cont) next)
          (hrow : (s.view () k).filter cond = some row) : s.CanFinish := by
        have hs : s.step (.run ()) = some ((s.write () k (set row)).goto ()
            (.inside t false (cont (some (set row))) next)) := by
          simp [step_run_inside hp, stepTx, hrow, not_locked_alone]
        exact .of_step (by simp) hs (ih (some (set row)) (goto_procs_self _))
      cases scanned with
      | true => exact hwrite s hp hrow
      | false =>
        have hs : s.step (.run ()) =
            some (s.goto () (.inside t true (.update k cond set cont) next)) := by
          simp [step_run_inside hp, stepTx, hrow]
        exact .of_step (by simp) hs (hwrite _ (goto_procs_self _) hrow)
  | insert refs row cont ih =>
    have hstep := step_run_inside hp
    simp only [stepTx] at hstep
    split at hstep
    · exact .of_step (by simp) hstep (ih s.nextId _ (goto_procs_self _))
    · exact .of_step (by simp) hstep
        ⟨[], _, .error G.fault, by simp [NoFault], rfl, goto_procs_self _⟩

/-- A program comes to its end if its effects are answered. -/
theorem canFinish_of_outside (r : G.Reply) {prog : Prog G ρ} (hp : s.procs () = .outside prog) :
    s.CanFinish := by
  induction prog generalizing s with
  | ret a => exact ⟨[], s, .ok a, by simp [NoFault], rfl, hp⟩
  | fail e => exact ⟨[], s, .error e, by simp [NoFault], rfl, hp⟩
  | now next ih =>
    have hs : s.step (.run ()) = some (s.goto () (.outside (next s.clock))) := by rw [step, hp]
    exact .of_step (by simp) hs (ih s.clock (goto_procs_self _))
  | select k cond next ih =>
    have hs : s.step (.run ()) = some (s.goto () (.outside (next ((s.db k).filter cond)))) := by
      rw [step, hp]
    exact .of_step (by simp) hs (ih _ (goto_procs_self _))
  | effect x next ih =>
    have hs : s.step (.reply () r) = some (s.goto () (.outside (next r))) := by rw [step, hp]
    exact .of_step (by simp) hs (ih r (goto_procs_self _))
  | transaction body next ih =>
    have hs : s.step (.run ()) = some (s.goto () (.inside s.clock false body next)) := by
      rw [step, hp]
    exact .of_step (by simp) hs (canFinish_of_inside (fun _ b hb => ih b hb) (goto_procs_self _))

end State

/-- A program can end, if there is a reply that its effects can have. -/
theorem exists_canEnd (r : G.Reply) (code : Prog G ρ) (db : Db G) (nextId : ℕ) :
    ∃ o, CanEnd code db nextId o := by
  obtain ⟨es, s, o, hes, hrun, hp⟩ := State.canFinish_of_outside r
    (s := .initial db nextId 0 fun _ => code) rfl
  exact ⟨o, 0, es, s, hes, hrun, hp⟩

/-- It ends as its weakest precondition says. -/
theorem Prog.Alone.of_canEnd {Q : Except G.Error ρ → Prop} {code : Prog G ρ} {db : Db G}
    {nextId : ℕ} {o : Except G.Error ρ}
    (h : code.Alone (fun a _ _ => Q (.ok a)) (fun e => Q (.error e)) db nextId)
    (ho : CanEnd code db nextId o) : Q o := by
  obtain ⟨clock, es, s, hes, hrun, hp⟩ := ho
  have hstart : (State.initial db nextId clock fun _ : Unit => code).Alone
      (fun a _ _ => Q (.ok a)) fun e => Q (.error e) :=
    (State.alone_outside rfl).mpr ⟨fun _ => rfl, h⟩
  have hend := ((State.alone_outside hp).mp (hstart.run hes hrun)).2
  cases o with
  | ok a => exact hend
  | error e => exact hend

/-! ### Narrow columns -/

/-- The body on a store that refuses the keys that are not `ok`, and the rows for which there is no
`room`. The row that an `UPDATE` has found is refused when it comes to the new values. A number of
the sequence that is too large for its column fails the transaction. -/
def Tx.guard (ok : G.Key → Bool) (room : ∀ k, G.Row k → Bool) : Tx G α → Tx G α
  | ret a => ret a
  | fail e => fail e
  | now next => now fun t => (next t).guard ok room
  | update k cond set next =>
      if ok k then
        update k cond set fun row =>
          if row.all (room k) then (next row).guard ok room else fail G.fault
      else fail G.fault
  | insert refs row next =>
      if refs.all ok then
        insert refs row fun n r =>
          if ok (G.serial n) && room (G.serial n) r then (next n r).guard ok room
          else fail G.fault
      else fail G.fault

/-- The program on such a store. -/
def Prog.guard (ok : G.Key → Bool) (room : ∀ k, G.Row k → Bool) : Prog G α → Prog G α
  | ret a => ret a
  | fail e => fail e
  | now next => now fun t => (next t).guard ok room
  | select k cond next =>
      if ok k then select k cond fun row => (next row).guard ok room else fail G.fault
  | effect x next => effect x fun r => (next r).guard ok room
  | transaction body next => transaction (body.guard ok room) fun b => (next b).guard ok room

section Guard

variable {ok : G.Key → Bool} {room : ∀ k, G.Row k → Bool}

@[simp] theorem Tx.guard_bind (x : Tx G α) (f : α → Tx G β) :
    (x.bind f).guard ok room = (x.guard ok room).bind fun a => (f a).guard ok room := by
  induction x with
  | ret a => rfl
  | fail e => rfl
  | now next ih => simp only [bind, guard, ih]
  | update k cond set next ih =>
    simp only [bind, guard, ih]
    split
    · simp only [bind]
      congr 1
      funext row
      split <;> rfl
    · rfl
  | insert refs row next ih =>
    simp only [bind, guard, ih]
    split
    · simp only [bind]
      congr 1
      funext n r
      split <;> rfl
    · rfl

@[simp] theorem Prog.guard_bind (x : Prog G α) (f : α → Prog G β) :
    (x.bind f).guard ok room = (x.guard ok room).bind fun a => (f a).guard ok room := by
  induction x with
  | ret a => rfl
  | fail e => rfl
  | now next ih => simp only [bind, guard, ih]
  | select k cond next ih =>
    simp only [bind, guard, ih]
    split <;> rfl
  | effect x next ih => simp only [bind, guard, ih]
  | transaction body next ih => simp only [bind, guard, ih]

end Guard

end ScalableBooking.ReadCommitted
