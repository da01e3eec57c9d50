import Mathlib.Order.Lattice
import Mathlib.Order.MinMax
import Mathlib.Tactic.GCongr

/-!
# Clamping into an interval

`clamp x lo hi` is `x` pushed into `[lo, hi]`. The bounds may themselves depend on other
data, so monotonicity is stated in all three arguments at once (`clamp_le_clamp`).
-/

variable {α : Type*} [LinearOrder α] {x y lo lo' hi hi' : α}

/-- `x` pushed up to `lo` and then down to `hi`. -/
def clamp (x lo hi : α) : α := min (max x lo) hi

theorem clamp_le (x lo hi : α) : clamp x lo hi ≤ hi := min_le_right _ _

theorem le_clamp (x : α) (h : lo ≤ hi) : lo ≤ clamp x lo hi :=
  le_min (le_max_right _ _) h

/-- Whatever the lower bound, a clamp is never below both `x` and `hi`. -/
theorem min_le_clamp (x lo hi : α) : min x hi ≤ clamp x lo hi :=
  min_le_min_right hi (le_max_left _ _)

/-- Whatever the upper bound, a clamp is never above both `x` and `lo`. -/
theorem clamp_le_max (x lo hi : α) : clamp x lo hi ≤ max x lo := min_le_left _ _

theorem clamp_of_mem (h₁ : lo ≤ x) (h₂ : x ≤ hi) : clamp x lo hi = x := by
  rw [clamp, max_eq_left h₁, min_eq_left h₂]

theorem clamp_of_hi_le (h : hi ≤ x) : clamp x lo hi = hi :=
  min_eq_right (h.trans (le_max_left _ _))

theorem clamp_of_le_lo (h₁ : x ≤ lo) (h₂ : lo ≤ hi) : clamp x lo hi = lo := by
  rw [clamp, max_eq_right h₁, min_eq_left h₂]

theorem clamp_le_clamp (hx : x ≤ y) (hlo : lo ≤ lo') (hhi : hi ≤ hi') :
    clamp x lo hi ≤ clamp y lo' hi' :=
  min_le_min (max_le_max hx hlo) hhi
