import ScalableBooking.Lib.Steps

/-!
# One program on two databases

Two machines run the same program alone, each on a database of its own, with the same clock and the
same answers from outside. If the program makes the same decisions on both databases
(`Prog.Alike`), then whatever one of them does the other can do, and both stand at the same place
(`Alike.run`): nothing that the databases differ in shows in the result, in an error or in an
effect.

`Tx.Alike` and `Prog.Alike` are the proof obligations of a program, by recursion on it. An `UPDATE`
may find two different rows, as long as the program goes on in the same way, and every commit has to
keep a relation between the two databases.
-/

namespace ScalableBooking.ReadCommitted

variable {G : Signature} {α β ρ : Type}

/-! ### Obligations -/

/-- On the databases `db` and `db'`, as it sees them, the body of a transaction makes the same
decisions, and what it returns is followed by `K`. -/
def Tx.Alike (K : α → Db G → Db G → Prop) : Tx G α → Db G → Db G → Prop
  | ret a, db, db' => K a db db'
  | fail _, _, _ => True
  | now next, db, db' => ∀ t, (next t).Alike K db db'
  | update k cond set next, db, db' =>
      ((db k).filter cond = none ∧ (db' k).filter cond = none ∧ (next none).Alike K db db') ∨
        ∃ row row', (db k).filter cond = some row ∧ (db' k).filter cond = some row' ∧
          next (some (set row')) = next (some (set row)) ∧
          (next (some (set row))).Alike K (Function.update db k (some (set row)))
            (Function.update db' k (some (set row')))
  | insert refs row next, db, db' =>
      ∀ n t, (((db (G.serial n)).isNone ∧ ∀ k ∈ refs, (db k).isSome) ↔
          ((db' (G.serial n)).isNone ∧ ∀ k ∈ refs, (db' k).isSome)) ∧
        (next n (row n t)).Alike K (Function.update db (G.serial n) (some (row n t)))
          (Function.update db' (G.serial n) (some (row n t)))

/-- On the committed databases `db` and `db'` the program makes the same decisions, and its commits
keep the relation `I`. -/
def Prog.Alike (I : Db G → Db G → Prop) : Prog G α → Db G → Db G → Prop
  | ret _, _, _ | fail _, _, _ => True
  | now next, db, db' => ∀ t, (next t).Alike I db db'
  | select k cond next, db, db' =>
      next ((db' k).filter cond) = next ((db k).filter cond) ∧
        (next ((db k).filter cond)).Alike I db db'
  | effect _ next, db, db' => ∀ r, (next r).Alike I db db'
  | transaction body next, db, db' =>
      body.Alike (fun b v v' => I v v' ∧ (next b).Alike I v v') db db'

/-! ### In step -/

/-- The two machines stand at the same place in the program, which makes the same decisions from
there. -/
structure Alike (I : Db G → Db G → Prop) (s s' : State G Unit ρ) : Prop where
  procs : s'.procs () = s.procs ()
  clock : s'.clock = s.clock
  nextId : s'.nextId = s.nextId
  kept : I s.db s'.db
  outside : ∀ prog, s.procs () = .outside prog →
    s.dirty = (fun _ => none) ∧ s'.dirty = (fun _ => none) ∧ prog.Alike I s.db s'.db
  inside : ∀ (β : Type) (t : ℕ) (scanned : Bool) (body : Tx G β) (next : β → Prog G ρ),
    s.procs () = .inside t scanned body next →
      body.Alike (fun b v v' => I v v' ∧ (next b).Alike I v v') (s.view ()) (s'.view ())

namespace Alike

variable {I : Db G → Db G → Prop} {s s' s₁ r u : State G Unit ρ}

theorem initial {db db' : Db G} {nextId clock : ℕ} {prog : Prog G ρ} (h : I db db')
    (hprog : prog.Alike I db db') :
    Alike I (State.initial db nextId clock fun _ => prog)
      (State.initial db' nextId clock fun _ => prog) where
  procs := rfl
  clock := rfl
  nextId := rfl
  kept := h
  outside := by
    rintro _ ⟨⟩
    exact ⟨rfl, rfl, hprog⟩
  inside := by
    rintro β t scanned body next ⟨⟩

/-- Both go on outside a transaction, with nothing written. -/
theorem goOutside (hclock : u.clock = r.clock) (hnextId : u.nextId = r.nextId)
    (hdirty : r.dirty = fun _ => none) (hdirty' : u.dirty = fun _ => none) (hI : I r.db u.db)
    {prog : Prog G ρ} (hprog : prog.Alike I r.db u.db) :
    Alike I (r.goto () (.outside prog)) (u.goto () (.outside prog)) where
  procs := by rw [State.goto_procs_self, State.goto_procs_self]
  clock := hclock
  nextId := hnextId
  kept := hI
  outside := by
    intro prog' hp
    rw [State.goto_procs_self] at hp
    cases hp
    exact ⟨hdirty, hdirty', hprog⟩
  inside := by
    intro β t scanned body next hp
    rw [State.goto_procs_self] at hp
    cases hp

/-- Both go on inside a transaction. -/
theorem goInside (hclock : u.clock = r.clock) (hnextId : u.nextId = r.nextId)
    (hI : I r.db u.db) {t : ℕ} {scanned : Bool} {body : Tx G β} {next : β → Prog G ρ}
    (hbody : body.Alike (fun b v v' => I v v' ∧ (next b).Alike I v v') (r.view ()) (u.view ())) :
    Alike I (r.goto () (.inside t scanned body next))
      (u.goto () (.inside t scanned body next)) where
  procs := by rw [State.goto_procs_self, State.goto_procs_self]
  clock := hclock
  nextId := hnextId
  kept := hI
  outside := by
    intro prog hp
    rw [State.goto_procs_self] at hp
    cases hp
  inside := by
    intro γ t' scanned' body' next' hp
    rw [State.goto_procs_self] at hp
    cases hp
    exact hbody

/-- Both give up their transactions. -/
theorem rollback (hclock : u.clock = r.clock) (hnextId : u.nextId = r.nextId)
    (hI : I r.db u.db) {e : G.Error} :
    Alike I ((r.rollback ()).goto () (.outside (.fail e)))
      ((u.rollback ()).goto () (.outside (.fail e))) :=
  goOutside (r := r.rollback ()) (u := u.rollback ()) hclock hnextId State.dirtyWithout_alone
    State.dirtyWithout_alone hI trivial

/-- One statement of a transaction. -/
theorem stepTx (h : Alike I s s') {t : ℕ} {scanned : Bool} {body : Tx G β} {next : β → Prog G ρ}
    (hp : s.procs () = .inside t scanned body next)
    (hs : s.stepTx () t scanned body next = some s₁) :
    ∃ s₁', s'.stepTx () t scanned body next = some s₁' ∧ Alike I s₁ s₁' := by
  have hbody := h.inside _ t scanned body next hp
  cases body with
  | ret b =>
    cases hs
    exact ⟨_, rfl, goOutside (r := s.commit ()) (u := s'.commit ()) h.clock h.nextId
      State.dirtyWithout_alone State.dirtyWithout_alone hbody.1 hbody.2⟩
  | fail e =>
    cases hs
    exact ⟨_, rfl, rollback h.clock h.nextId h.kept⟩
  | now k =>
    cases hs
    refine ⟨_, rfl, ?_⟩
    rw [h.clock]
    exact goInside h.clock h.nextId h.kept (hbody s.clock)
  | update k cond set cont =>
    simp only [State.stepTx, State.not_locked_alone, and_false, if_false] at hs ⊢
    obtain ⟨hnone, hnone', hcont⟩ | ⟨row, row', hrow, hrow', hsame, hcont⟩ := hbody
    · rw [hnone] at hs
      rw [hnone']
      cases hs
      exact ⟨_, rfl, goInside h.clock h.nextId h.kept hcont⟩
    · rw [hrow] at hs
      rw [hrow']
      cases scanned with
      | false =>
        -- found on the snapshot
        cases hs
        exact ⟨_, rfl, goInside h.clock h.nextId h.kept
          (.inr ⟨row, row', hrow, hrow', hsame, hcont⟩)⟩
      | true =>
        cases hs
        refine ⟨_, rfl, ?_⟩
        rw [hsame]
        refine goInside (r := s.write () k (set row)) (u := s'.write () k (set row')) h.clock
          h.nextId h.kept ?_
        rw [State.view_write, State.view_write]
        exact hcont
  | insert refs row cont =>
    obtain ⟨hkeys, hcont⟩ := hbody s.nextId t
    cases s' with
    | mk db' dirty' procs' nextId' clock' =>
      obtain rfl : nextId' = s.nextId := h.nextId
      simp only [State.stepTx] at hs ⊢
      split at hs
      · rename_i hfree
        cases hs
        rw [if_pos (hkeys.mp hfree)]
        refine ⟨_, rfl, ?_⟩
        refine goInside ?_ ?_ ?_ ?_
        · exact h.clock
        · rfl
        · exact h.kept
        · rw [State.view_write, State.view_write]
          exact hcont
      · rename_i hfree
        cases hs
        rw [if_neg fun hfree' => hfree (hkeys.mpr hfree')]
        refine ⟨_, rfl, ?_⟩
        refine rollback ?_ ?_ ?_
        · exact h.clock
        · rfl
        · exact h.kept

/-- Whatever one machine does, the other does. -/
theorem step (h : Alike I s s') {e : Event G Unit} (hs : s.step e = some s₁) :
    ∃ s₁', s'.step e = some s₁' ∧ Alike I s₁ s₁' := by
  cases e with
  | tick d =>
    cases hs
    exact ⟨_, rfl, h.procs, congrArg (· + d) h.clock, h.nextId, h.kept, h.outside, h.inside⟩
  | run p =>
    simp only [State.step] at hs ⊢
    rw [h.procs]
    cases hp : s.procs () with
    | inside t scanned body next =>
      rw [hp] at hs
      exact h.stepTx hp hs
    | outside prog =>
      rw [hp] at hs
      obtain ⟨hdirty, hdirty', hprog⟩ := h.outside prog hp
      cases prog with
      | now next =>
        cases hs
        refine ⟨_, rfl, ?_⟩
        rw [h.clock]
        exact goOutside h.clock h.nextId hdirty hdirty' h.kept (hprog s.clock)
      | select k cond next =>
        cases hs
        refine ⟨_, rfl, ?_⟩
        rw [hprog.1]
        exact goOutside h.clock h.nextId hdirty hdirty' h.kept hprog.2
      | transaction body next =>
        cases hs
        refine ⟨_, rfl, ?_⟩
        rw [h.clock]
        refine goInside h.clock h.nextId h.kept ?_
        -- both transactions begin on what is committed
        rw [State.view_of_clean hdirty, State.view_of_clean hdirty']
        exact hprog
      | _ => cases hs
  | reply p r =>
    cases p
    simp only [State.step] at hs ⊢
    rw [h.procs]
    split at hs
    · rename_i x next hp
      rw [hp]
      obtain ⟨hdirty, hdirty', hprog⟩ := h.outside _ hp
      cases hs
      exact ⟨_, rfl, goOutside h.clock h.nextId hdirty hdirty' h.kept (hprog r)⟩
    · cases hs
  | fault p =>
    cases p
    simp only [State.step] at hs ⊢
    rw [h.procs]
    split at hs
    · rename_i hp
      rw [hp]
      obtain ⟨hdirty, hdirty', -⟩ := h.outside _ hp
      cases hs
      exact ⟨_, rfl, goOutside h.clock h.nextId hdirty hdirty' h.kept trivial⟩
    · rename_i hp
      rw [hp]
      obtain ⟨hdirty, hdirty', -⟩ := h.outside _ hp
      cases hs
      exact ⟨_, rfl, goOutside h.clock h.nextId hdirty hdirty' h.kept trivial⟩
    · rename_i hp
      rw [hp]
      cases hs
      -- both give up what they have written
      exact ⟨_, rfl, rollback h.clock h.nextId h.kept⟩
    · cases hs

/-- Every run of one machine is one of the other. -/
theorem run (h : Alike I s s') {es : List (Event G Unit)} (hs : s.run es = some s₁) :
    ∃ s₁', s'.run es = some s₁' ∧ Alike I s₁ s₁' := by
  induction es generalizing s s' with
  | nil =>
    cases hs
    exact ⟨s', rfl, h⟩
  | cons e es ih =>
    obtain ⟨s₂, hstep, hrest⟩ := Option.bind_eq_some_iff.mp hs
    obtain ⟨s₂', hstep', h₂⟩ := h.step hstep
    obtain ⟨s₁', hrest', h₁⟩ := ih h₂ hrest
    refine ⟨s₁', ?_, h₁⟩
    rw [State.run, hstep']
    exact hrest'

end Alike

end ScalableBooking.ReadCommitted
