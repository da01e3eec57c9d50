import Mathlib.Data.List.Induction

/-!
# Runs of a partial step function

A run is a list of events, folded over a state by a step function. A step that the state does not
allow gives `none`, and then there is no such run. What holds all along a run is proved about one
step at a time (`foldlM_induction`).
-/

namespace ScalableBooking.Runs

variable {σ α : Type*} {step : σ → α → Option σ} {s s' : σ} {events : List α}

/-- **The run rule.** What holds at the start and is kept by every step of the run holds at its
end. -/
theorem foldlM_induction {I : σ → Prop} (hrun : events.foldlM step s = some s') (h₀ : I s)
    (hstep : ∀ s s', ∀ e ∈ events, step s e = some s' → I s → I s') : I s' := by
  induction events generalizing s with
  | nil =>
    obtain rfl : s = s' := Option.some.inj hrun
    exact h₀
  | cons e events ih =>
    rw [List.foldlM_cons] at hrun
    obtain ⟨s₁, he, hrun⟩ := Option.bind_eq_some_iff.mp hrun
    refine ih hrun (hstep s s₁ e List.mem_cons_self he h₀) ?_
    intro s s' e' he'
    exact hstep s s' e' (List.mem_cons_of_mem e he')

/-- The run rule for what is said of a state and of the events that have led to it. -/
theorem foldlM_history {I : List α → σ → Prop} (hrun : events.foldlM step s = some s')
    (h₀ : I [] s) (hstep : ∀ past s s' e, step s e = some s' → I past s → I (past ++ [e]) s') :
    I events s' := by
  induction events using List.reverseRecOn generalizing s' with
  | nil =>
    obtain rfl : s = s' := Option.some.inj hrun
    exact h₀
  | append_singleton past e ih =>
    rw [List.foldlM_append] at hrun
    obtain ⟨s₁, hpast, he⟩ := Option.bind_eq_some_iff.mp hrun
    rw [List.foldlM_cons, Option.bind_eq_bind, Option.bind_eq_some_iff] at he
    obtain ⟨s₂, he, hnil⟩ := he
    obtain rfl : s₂ = s' := Option.some.inj hnil
    exact hstep past s₁ s₂ e he (ih hpast)

end ScalableBooking.Runs
