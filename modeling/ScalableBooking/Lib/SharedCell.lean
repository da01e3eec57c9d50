import Mathlib.Data.Bool.Count
import Mathlib.Logic.Function.Basic

/-!
# Two updates of a shared cell

A writer loads the content of a cell, works out a new content from what it has loaded, and stores
it later. Loading and storing are atomic, and nothing keeps the content the same in between. An
update can fail, and then its writer stores nothing.

Of the interleavings of two writers two are serial, one for each order. In all others both have
loaded before either stores (`Interleaving.cases`), so the update of the one that stores first is
lost (`run_overlapping`).
-/

namespace ScalableBooking.SharedCell

variable {S : Type*}

/-- Where a writer stands. -/
inductive Phase (S : Type*) where
  | idle
  | loaded (snapshot : S)
  | finished

/-- The cell and its two writers. -/
structure Config (S : Type*) where
  cell : S
  phase : Bool → Phase S

/-- Nobody has loaded yet. -/
def start (s : S) : Config S := ⟨s, fun _ => .idle⟩

/-- The order in which writer `w` is done before the other one begins. -/
def serial (w : Bool) : List Bool := [w, w, !w, !w]

/-- Each writer takes its two steps. -/
def Interleaving (schedule : List Bool) : Prop :=
  schedule.count false = 2 ∧ schedule.count true = 2

instance (schedule : List Bool) : Decidable (Interleaving schedule) :=
  inferInstanceAs (Decidable (_ ∧ _))

section Runs

variable (update : Bool → S → Option S)

/-- The next step of writer `w`. -/
def step (c : Config S) (w : Bool) : Option (Config S) :=
  match c.phase w with
  | .idle => some { c with phase := Function.update c.phase w (.loaded c.cell) }
  | .loaded snapshot =>
    some ⟨(update w snapshot).getD c.cell, Function.update c.phase w .finished⟩
  | .finished => none

/-- The steps of a schedule. -/
def run (c : Config S) (schedule : List Bool) : Option (Config S) :=
  schedule.foldlM (step update) c

/-- An update by itself. One that fails leaves the content alone. -/
def apply (w : Bool) (s : S) : S := (update w s).getD s

/-- The updates one after the other, that of `w` first. -/
def applyBoth (w : Bool) (s : S) : S := apply update (!w) (apply update w s)

/-- Both writers are done, and have left `s` in the cell. -/
def Ends (s₀ : S) (schedule : List Bool) (s : S) : Prop :=
  run update (start s₀) schedule = some ⟨s, fun _ => .finished⟩

end Runs

variable {update : Bool → S → Option S} {schedule : List Bool} {s₀ s s' : S}

theorem Ends.unique (h : Ends update s₀ schedule s) (h' : Ends update s₀ schedule s') : s = s' := by
  rw [Ends, h] at h'
  exact congrArg Config.cell (Option.some.inj h')

/-- An interleaving is serial, or both load first and then `!w` stores before `w`. -/
theorem Interleaving.cases (h : Interleaving schedule) :
    (∃ w, schedule = serial w) ∨
      ∃ w, schedule = [w, !w, !w, w] ∨ schedule = [!w, w, !w, w] := by
  obtain ⟨hfalse, htrue⟩ := h
  have hlength : schedule.length = 4 := by
    rw [← List.count_false_add_count_true schedule, hfalse, htrue]
  match schedule, hlength with
  | [a, b, c, d], _ =>
    revert a b c d
    decide

/-- A serial interleaving leaves what the two updates leave in its order. -/
theorem ends_serial (update : Bool → S → Option S) (s₀ : S) (w : Bool) :
    Ends update s₀ (serial w) (applyBoth update w s₀) := by
  cases w <;>
    simp [Ends, run, serial, step, start, apply, applyBoth, Function.update, funext_iff]

/-- In any other one, the one that stores last leaves its update of what was there before
either. -/
theorem ends_overlapping (update : Bool → S → Option S) (s₀ : S) {w : Bool}
    (h : schedule = [w, !w, !w, w] ∨ schedule = [!w, w, !w, w]) :
    Ends update s₀ schedule ((update w s₀).getD (apply update (!w) s₀)) := by
  rcases h with rfl | rfl <;> cases w <;>
    simp [Ends, run, step, start, apply, Function.update, funext_iff]

end ScalableBooking.SharedCell
