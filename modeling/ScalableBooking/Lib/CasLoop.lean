import ScalableBooking.Lib.Runs
import Mathlib.Data.List.Nodup
import Mathlib.Logic.Function.Basic

/-!
# Updates by compare-exchange loops

A call reads a cell, works out a new content from what it has read, and stores it with a
compare-exchange. If somebody else has been faster, the exchange fails and hands out the present
content, from which the call tries again. A weak exchange may also fail for no reason.

However the calls interleave, each takes effect at the moment of its one successful exchange: the
cell holds what the finished calls leave behind, one after another in the order in which they
finish (`run_atomic`). So what every update keeps holds of the cell, and of every content a call
works on, failed attempts included (`run_invariant`).
-/

namespace ScalableBooking.CasLoop

variable {S P : Type*}

/-- Where a call stands. -/
inductive Phase (S : Type*) where
  | load
  /-- The exchange is next, with the content it expects. -/
  | exchange (cur : S)
  | done

/-- The cell and the calls. -/
structure State (S P : Type*) where
  cell : S
  phase : P → Phase S

/-- Nobody has read the cell yet. -/
def State.start (s : S) : State S P := ⟨s, fun _ => .load⟩

/-- The next step of a call. A weak exchange can be made to fail. -/
structure Event (P : Type*) where
  call : P
  spurious : Bool

/-- The updates of some calls, one after another. -/
def applyAll (update : P → S → S) (s : S) (order : List P) : S :=
  order.foldl (fun s p => update p s) s

/-- Call `p` goes on at `ph`. -/
def State.goto [DecidableEq P] (st : State S P) (p : P) (ph : Phase S) : State S P :=
  { st with phase := Function.update st.phase p ph }

section Runs

variable [DecidableEq S] [DecidableEq P] (update : P → S → S)

namespace State

/-- One step. A call that is done makes none. -/
def step (st : State S P) (e : Event P) : Option (State S P) :=
  match st.phase e.call with
  | .load => some (st.goto e.call (.exchange st.cell))
  | .exchange cur =>
    if st.cell = cur ∧ e.spurious = false then
      some { st.goto e.call .done with cell := update e.call cur }
    -- a failed exchange hands out the content it has found
    else some (st.goto e.call (.exchange st.cell))
  | .done => none

/-- The steps of a run, one after another. -/
def run (st : State S P) (events : List (Event P)) : Option (State S P) :=
  events.foldlM (step update) st

end State

end Runs

namespace State

variable [DecidableEq S] [DecidableEq P] {update : P → S → S} {st st' : State S P} {e : Event P}
  {s : S} {p q : P} {events : List (Event P)}

omit [DecidableEq S] in
theorem phase_goto_self (st : State S P) (p : P) (ph : Phase S) : (st.goto p ph).phase p = ph := by
  unfold goto
  exact Function.update_self ..

omit [DecidableEq S] in
theorem phase_goto_of_ne (h : q ≠ p) (ph : Phase S) : (st.goto p ph).phase q = st.phase q := by
  unfold goto
  exact Function.update_of_ne h ..

/-- A step reads the cell, or it is the exchange by which its call takes effect. -/
theorem step_cases (h : st.step update e = some st') :
    (st.phase e.call ≠ .done ∧ st' = st.goto e.call (.exchange st.cell)) ∨
      (st.phase e.call = .exchange st.cell ∧
        st' = { st.goto e.call .done with cell := update e.call st.cell }) := by
  unfold step at h
  cases hph : st.phase e.call with
  | load =>
    simp only [hph] at h
    cases h
    exact Or.inl ⟨by simp, rfl⟩
  | exchange cur =>
    simp only [hph] at h
    split at h
    · next hcell =>
      -- the content is the expected one
      obtain ⟨rfl, -⟩ := hcell
      cases h
      exact Or.inr ⟨rfl, rfl⟩
    · cases h
      exact Or.inl ⟨by simp, rfl⟩
  | done =>
    simp only [hph] at h
    cases h

/-- What holds at the start and is kept by every step holds after every run. -/
theorem run_induction {I : State S P → Prop} (hrun : st.run update events = some st')
    (h₀ : I st) (hstep : ∀ s₁ s₂ e, s₁.step update e = some s₂ → I s₁ → I s₂) : I st' :=
  Runs.foldlM_induction hrun h₀ fun s₁ s₂ e _ => hstep s₁ s₂ e

/-- The calls in `order` are the finished ones, and they have taken effect in this order. -/
structure Linearised (update : P → S → S) (s : S) (st : State S P) (order : List P) : Prop where
  nodup : order.Nodup
  mem_iff : ∀ p, p ∈ order ↔ st.phase p = .done
  cell_eq : st.cell = applyAll update s order

theorem Linearised.step {order : List P} (hlin : Linearised update s st order)
    (h : st.step update e = some st') : ∃ order', Linearised update s st' order' := by
  obtain ⟨hnot, rfl⟩ | ⟨hready, rfl⟩ := step_cases h
  · -- a reading: nobody finishes
    refine ⟨order, hlin.nodup, ?_, hlin.cell_eq⟩
    intro p
    rw [hlin.mem_iff]
    by_cases hp : p = e.call
    · subst hp
      rw [phase_goto_self]
      simp [hnot]
    · rw [phase_goto_of_ne hp]
  · -- the exchange puts the call at the end
    have hnew : e.call ∉ order := by
      rw [hlin.mem_iff, hready]
      simp
    refine ⟨order ++ [e.call], ?_, ?_, ?_⟩
    · exact List.nodup_append.mpr ⟨hlin.nodup, List.nodup_singleton _, by
        rintro a ha b hb rfl
        rw [List.mem_singleton] at hb
        exact hnew (hb ▸ ha)⟩
    · intro p
      show p ∈ order ++ [e.call] ↔ (st.goto e.call .done).phase p = .done
      rw [List.mem_append, List.mem_singleton, hlin.mem_iff]
      by_cases hp : p = e.call
      · subst hp
        simp [phase_goto_self]
      · rw [phase_goto_of_ne hp]
        simp [hp]
    · show update e.call st.cell = applyAll update s (order ++ [e.call])
      rw [hlin.cell_eq]
      unfold applyAll
      rw [List.foldl_append, List.foldl_cons, List.foldl_nil]

/-- **Atomicity.** After every run the cell holds what the finished calls make of the first
content, one after another. -/
theorem run_atomic (hrun : (start s).run update events = some st) :
    ∃ order, Linearised update s st order := by
  refine run_induction (I := fun st => ∃ order, Linearised update s st order) hrun ?_ ?_
  · exact ⟨[], List.nodup_nil, by simp [start], rfl⟩
  · rintro s₁ s₂ e he ⟨order, hlin⟩
    exact hlin.step he

/-- **The invariant rule.** What holds of the first content and is kept by every update holds of
the cell, and of every content an exchange expects. -/
theorem run_invariant {I : S → Prop} (hrun : (start s).run update events = some st) (h₀ : I s)
    (hupdate : ∀ p s, I s → I (update p s)) :
    I st.cell ∧ ∀ p cur, st.phase p = .exchange cur → I cur := by
  refine run_induction (I := fun st => I st.cell ∧ ∀ p cur, st.phase p = .exchange cur → I cur)
    hrun ?_ ?_
  · exact ⟨h₀, fun p cur h => by cases h⟩
  · rintro s₁ s₂ e he ⟨hcell, hcur⟩
    obtain ⟨-, rfl⟩ | ⟨-, rfl⟩ := step_cases he
    · refine ⟨hcell, fun p cur hp => ?_⟩
      by_cases hpe : p = e.call
      · subst hpe
        rw [phase_goto_self] at hp
        cases hp
        exact hcell
      · rw [phase_goto_of_ne hpe] at hp
        exact hcur p cur hp
    · refine ⟨hupdate e.call s₁.cell hcell, fun p cur hp => ?_⟩
      by_cases hpe : p = e.call
      · subst hpe
        rw [show (State.goto s₁ e.call .done).phase e.call = .done from phase_goto_self _ _ _] at hp
        cases hp
      · exact hcur p cur ((phase_goto_of_ne hpe _).symm.trans hp)

end State

end ScalableBooking.CasLoop
