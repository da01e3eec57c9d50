import Mathlib.Analysis.SpecificLimits.Basic
import ScalableBooking.RouterCore.PoolStep

/-!
# A pool under constant predictions, as a sequence of numbers

The weights of a pool that is synchronised with the same predictions over and over, and a
backend `b` whose raw weight is below that of `g` at every step. Does the weight of `b` ever
drop below that of `g`?

The clamp is what may prevent it. As long as both weights are moved by the same bound they
stay equal, however different the raw weights are. `b` and `g` separate at the first step
at which `b` is not *saturated*, that is, not moved up by the full tenth. The exact answer
(`PersistentRun.exists_lt_iff`) has two parts.

* `b` stays saturated for good iff its weight never exceeds `3/4` of its raw weight. While
  it does, nobody grows faster (`Leading`), so the weights are driven to
  `3/4 * min (R b) (R s)`, with `R` the limits of the raw weights. They sum to one, so this
  is possible iff `∑ min (R b) (R s)` is at least `4/3`. If the sum is smaller, the divisor
  stays below `11/10` by a fixed amount and the weight of `b` would grow without bound.
* In a pool of two both backends start at `1/2`, and if both raw weights are so low that
  both are moved *down* by the full tenth, normalisation takes them back to `1/2`.
-/

namespace ScalableBooking.RouterCore

open Filter Topology

variable {S : Finset ServerId} {b g : ServerId} {R : ServerId → ℝ}
  {raw w : ℕ → ServerId → ℝ} {t : ℕ} {s : ServerId}

/-! ### The clamp on a weight above the floor -/

theorem moved_of_floor_le {r x : ℝ} (hx : 3 / 100 ≤ x) :
    moved r x = clamp (3 / 10 * r + 7 / 10 * x) (9 / 10 * x) (11 / 10 * x) := by
  rw [moved_eq, max_eq_left hx]
  ring_nf

theorem moved_le {r x : ℝ} (hx : 3 / 100 ≤ x) : moved r x ≤ 11 / 10 * x := by
  rw [moved_of_floor_le hx]
  exact clamp_le _ _ _

theorem le_moved {r x : ℝ} (hx : 3 / 100 ≤ x) : 9 / 10 * x ≤ moved r x := by
  rw [moved_of_floor_le hx]
  apply le_clamp
  linarith

/-- Up to `3/4` of the raw weight, a weight is moved up by the full tenth. -/
theorem moved_of_saturated {r x : ℝ} (hx : 3 / 100 ≤ x) (h : x ≤ 3 / 4 * r) :
    moved r x = 11 / 10 * x := by
  rw [moved_of_floor_le hx]
  apply clamp_of_hi_le
  linarith

/-- Beyond `3/4` of the raw weight, a weight is not moved below `33/40` of it. -/
theorem le_moved_of_unsaturated {r x : ℝ} (hx : 3 / 100 ≤ x) (h : 3 / 4 * r ≤ x) :
    33 / 40 * r ≤ moved r x := by
  rw [moved_of_floor_le hx]
  -- either bound of the minimum is at least `33/40 * r`
  refine le_trans (le_min ?_ ?_) (min_le_clamp _ _ _) <;> linarith

/-- Two equal weights with different raw weights separate, unless both reach the same
bound. -/
theorem moved_lt_moved {r r' x : ℝ} (hx : 3 / 100 ≤ x) (hunsat : 3 / 4 * r < x)
    (hlt : r < r') (hlow : 2 / 3 * x < r') : moved r x < moved r' x := by
  rw [moved_of_floor_le hx, moved_of_floor_le hx]
  calc clamp (3 / 10 * r + 7 / 10 * x) (9 / 10 * x) (11 / 10 * x)
      ≤ max (3 / 10 * r + 7 / 10 * x) (9 / 10 * x) := clamp_le_max _ _ _
    _ < min (3 / 10 * r' + 7 / 10 * x) (11 / 10 * x) := by
        -- `r` is not at the upper bound, and `r'` not at the lower one
        refine max_lt (lt_min ?_ ?_) (lt_min ?_ ?_) <;> linarith
    _ ≤ clamp (3 / 10 * r' + 7 / 10 * x) (9 / 10 * x) (11 / 10 * x) := min_le_clamp _ _ _

/-- A weight that is at most `3/4` of some larger raw weight `q` grows by less than a tenth
by at least a fifth of what it has above `3/4 * min q r`. -/
theorem moved_le_sub_deficit {q r x : ℝ} (hx : 3 / 100 ≤ x) (hr : 0 ≤ r) (hq : x ≤ 3 / 4 * q) :
    moved r x ≤ 11 / 10 * x - 1 / 5 * (x - 3 / 4 * min q r) := by
  rcases le_total q r with hqr | hrq
  · -- already `q` saturates it
    have hle := moved_le (r := r) hx
    rw [min_eq_left hqr]
    linarith
  · rw [min_eq_right hrq, moved_of_floor_le hx]
    rcases le_total x (3 / 4 * r) with hsat | hunsat
    · -- saturated by its own raw weight: the deficit is not positive
      exact (clamp_le _ _ _).trans (by linarith)
    · refine (clamp_le_max _ _ _).trans (max_le ?_ ?_) <;> linarith

/-! ### Steps of a pool -/

theorem sum_poolStep (hs : s ∈ S) (r x : ServerId → ℝ) : ∑ t ∈ S, poolStep S r x t = 1 := by
  unfold poolStep
  rw [← Finset.sum_div]
  exact div_self (sum_settled_pos hs r x).ne'

/-- While no weight is below a tenth the floor is idle and the cap cancels out. -/
theorem poolStep_of_floor_idle {r x : ServerId → ℝ} (hx : ∀ t ∈ S, 1 / 10 ≤ x t)
    (hs : s ∈ S) : poolStep S r x s = moved (r s) (x s) / ∑ t ∈ S, moved (r t) (x t) := by
  have hsettled : ∀ t ∈ S, settled (r t) (x t) = 2 / 5 * moved (r t) (x t) := by
    intro t ht
    have hxt := hx t ht
    -- `2/5` of `9/10` of a tenth is above the floor
    have hlow := le_moved (r := r t) (x := x t) (by linarith)
    unfold settled
    apply max_eq_left
    linarith
  rw [poolStep, hsettled s hs, Finset.sum_congr rfl hsettled, ← Finset.mul_sum,
    mul_div_mul_left _ _ (by norm_num)]

/-- Two backends with the same settled weight are published with the same weight. -/
theorem poolStep_congr {r x : ServerId → ℝ} {i j : ServerId}
    (h : moved (r i) (x i) = moved (r j) (x j)) : poolStep S r x i = poolStep S r x j := by
  rw [poolStep, poolStep, settled, settled, h]

/-! ### Runs -/

/-- The weights `w t` of a pool after `t` synchronisations with constant predictions. The
raw weights `raw t` decrease to `R`, slowly, and `b` is worse than `g` throughout. -/
structure PersistentRun (S : Finset ServerId) (b g : ServerId) (R : ServerId → ℝ)
    (raw w : ℕ → ServerId → ℝ) : Prop where
  b_mem : b ∈ S
  g_mem : g ∈ S
  start : ∀ s ∈ S, w 0 s = 1 / (S.card : ℝ)
  step : ∀ t, ∀ s ∈ S, w (t + 1) s = poolStep S (raw t) (w t) s
  limit_le : ∀ t, ∀ s ∈ S, R s ≤ raw t s
  le_limit : ∀ s ∈ S, 2 / 15 ≤ R s
  antitone : ∀ t, ∀ s ∈ S, raw (t + 1) s ≤ raw t s
  slow : ∀ t, ∀ s ∈ S, 9 / 10 * raw t s ≤ raw (t + 1) s
  tendsto : ∀ s ∈ S, Tendsto (fun t => raw t s) atTop (𝓝 (R s))
  worse : ∀ t, raw t b < raw t g
  limit_worse : R b < R g
  first : 2 / 9 < raw 0 g

namespace PersistentRun

variable (h : PersistentRun S b g R raw w)
include h

theorem ne : b ≠ g := by
  rintro rfl
  exact (h.worse 0).false

theorem two_le_card : 2 ≤ S.card :=
  Finset.one_lt_card.mpr ⟨b, h.b_mem, g, h.g_mem, h.ne⟩

theorem card_pos : (0 : ℝ) < S.card := by
  have hcard := h.two_le_card
  exact_mod_cast (by omega : 0 < S.card)

theorem weight_pos (hs : s ∈ S) : 0 < w t s := by
  cases t with
  | zero =>
    rw [h.start s hs]
    exact one_div_pos.mpr h.card_pos
  | succ t =>
    rw [h.step t s hs]
    exact poolStep_pos hs _ _

theorem sum_weight (t : ℕ) : ∑ s ∈ S, w t s = 1 := by
  cases t with
  | zero =>
    rw [Finset.sum_congr rfl h.start, Finset.sum_const, nsmul_eq_mul,
      mul_one_div_cancel h.card_pos.ne']
  | succ t =>
    rw [Finset.sum_congr rfl (h.step t)]
    exact sum_poolStep h.b_mem _ _

theorem weight_le_one (hs : s ∈ S) : w t s ≤ 1 := by
  rw [← h.sum_weight t]
  exact Finset.single_le_sum (fun i hi => (h.weight_pos hi).le) hs

/-- If all are moved to one value, all are published with an equal share. -/
theorem equal_share_of_moved {x : ℝ} (hmoved : ∀ i ∈ S, moved (raw t i) (w t i) = x) :
    ∀ s ∈ S, w (t + 1) s = 1 / (S.card : ℝ) := by
  intro s hs
  have hequal : ∀ i ∈ S, w (t + 1) i = w (t + 1) s := by
    intro i hi
    rw [h.step t i hi, h.step t s hs]
    exact poolStep_congr ((hmoved i hi).trans (hmoved s hs).symm)
  have hsum := h.sum_weight (t + 1)
  rw [Finset.sum_congr rfl hequal, Finset.sum_const, nsmul_eq_mul] at hsum
  rw [eq_div_iff h.card_pos.ne', mul_comm]
  exact hsum

/-! ### Pools where nobody separates -/

/-- With ten backends or more an equal share is so small that everybody is saturated. -/
theorem equal_of_ten_le_card (hcard : 10 ≤ S.card) (t : ℕ) :
    ∀ s ∈ S, w t s = 1 / (S.card : ℝ) := by
  induction t with
  | zero => exact h.start
  | succ t ih =>
    have hshare : 1 / (S.card : ℝ) ≤ 1 / 10 := by
      apply one_div_le_one_div_of_le (by norm_num)
      exact_mod_cast hcard
    have hshare₀ : 0 < 1 / (S.card : ℝ) := one_div_pos.mpr h.card_pos
    -- everybody is moved up by the full amount, and by the same one
    refine h.equal_share_of_moved
      (x := 1 / (S.card : ℝ) + max (1 / (S.card : ℝ)) (3 / 100) / 10) ?_
    intro i hi
    have hraw := (h.le_limit i hi).trans (h.limit_le t i hi)
    rw [ih i hi, moved_eq]
    apply clamp_of_hi_le
    rcases max_cases (1 / (S.card : ℝ)) (3 / 100) with ⟨hmax, -⟩ | ⟨hmax, -⟩ <;>
      rw [hmax] <;> linarith

/-- In a pool of two, two raw weights of at most `1/3` keep both backends at `1/2`. -/
theorem equal_of_both_low (hcard : S.card = 2) (hlow : raw 0 g ≤ 1 / 3) (t : ℕ) :
    ∀ s ∈ S, w t s = 1 / 2 := by
  have hpair : ∀ s ∈ S, s = b ∨ s = g := by
    intro s hs
    by_contra hs'
    rw [not_or] at hs'
    -- a third backend would make a pool of three
    have hthree : ({s, b, g} : Finset ServerId) ⊆ S := by
      intro i hi
      simp only [Finset.mem_insert, Finset.mem_singleton] at hi
      rcases hi with rfl | rfl | rfl
      · exact hs
      · exact h.b_mem
      · exact h.g_mem
    have hle := Finset.card_le_card hthree
    rw [Finset.card_eq_three.mpr ⟨s, b, g, hs'.1, hs'.2, h.ne, rfl⟩] at hle
    omega
  have hg : ∀ t, raw t g ≤ 1 / 3 := by
    intro t
    induction t with
    | zero => exact hlow
    | succ t ih => exact (h.antitone t g h.g_mem).trans ih
  induction t with
  | zero =>
    intro s hs
    rw [h.start s hs, hcard]
    norm_num
  | succ t ih =>
    -- both are moved down to `9/20`
    have hmoved : ∀ i ∈ S, moved (raw t i) (w t i) = 9 / 20 := by
      intro i hi
      have hi' : raw t i ≤ 1 / 3 := by
        rcases hpair i hi with rfl | rfl
        · exact (h.worse t).le.trans (hg t)
        · exact hg t
      rw [ih i hi, moved_of_floor_le (by norm_num), clamp_of_le_lo] <;> linarith
    intro s hs
    rw [h.equal_share_of_moved hmoved s hs, hcard]
    norm_num

/-! ### While `b` is saturated -/

omit h in
/-- `b` has the largest weight and has grown, and nobody has fallen behind both `b` and
`3/4` of their own limit. -/
structure Leading (S : Finset ServerId) (b : ServerId) (R x : ServerId → ℝ) : Prop where
  share_le : 1 / (S.card : ℝ) ≤ x b
  le_lead : ∀ s ∈ S, x s ≤ x b
  kept_up : ∀ s ∈ S, min (x b) (3 / 4 * R s) ≤ x s

theorem leading_start : Leading S b R (w 0) where
  share_le := (h.start b h.b_mem).ge
  le_lead := fun s hs => by rw [h.start s hs, h.start b h.b_mem]
  kept_up := fun s hs => by
    rw [h.start s hs, h.start b h.b_mem]
    exact min_le_left _ _

/-- With at most nine backends the floor is idle as long as `b` leads. -/
theorem tenth_le (hcard : S.card ≤ 9) (hlead : Leading S b R (w t)) (hs : s ∈ S) :
    1 / 10 ≤ w t s := by
  have hnine : (1 / 9 : ℝ) ≤ 1 / S.card := by
    apply one_div_le_one_div_of_le h.card_pos
    exact_mod_cast hcard
  have hlead₀ := hlead.share_le
  have hR := h.le_limit s hs
  -- `3/4` of the smallest limit is a tenth
  refine le_trans (le_min ?_ ?_) (hlead.kept_up s hs) <;> linarith

/-- The divisor of a step that `b` leads into. -/
theorem sum_moved_mem (hx : ∀ s ∈ S, 1 / 10 ≤ w t s) :
    ∑ s ∈ S, moved (raw t s) (w t s) ∈ Set.Icc (9 / 10 : ℝ) (11 / 10) := by
  have hsum := h.sum_weight t
  -- above the floor the clamp is proportional to the weight
  have hfloor : ∀ s ∈ S, 3 / 100 ≤ w t s := fun s hs => by linarith [hx s hs]
  refine ⟨?_, ?_⟩
  · calc (9 / 10 : ℝ) = ∑ s ∈ S, 9 / 10 * w t s := by rw [← Finset.mul_sum, hsum, mul_one]
      _ ≤ _ := Finset.sum_le_sum fun s hs => le_moved (hfloor s hs)
  · calc ∑ s ∈ S, moved (raw t s) (w t s) ≤ ∑ s ∈ S, 11 / 10 * w t s :=
        Finset.sum_le_sum fun s hs => moved_le (hfloor s hs)
      _ = 11 / 10 := by rw [← Finset.mul_sum, hsum, mul_one]

/-- **A saturated leader leads on.** -/
theorem leading_step (hcard : S.card ≤ 9) (hlead : Leading S b R (w t))
    (hsat : w t b ≤ 3 / 4 * raw t b) : Leading S b R (w (t + 1)) := by
  have htenth : ∀ s ∈ S, 1 / 10 ≤ w t s := fun s hs => h.tenth_le hcard hlead hs
  have hfloor : ∀ s ∈ S, 3 / 100 ≤ w t s := fun s hs => by linarith [htenth s hs]
  obtain ⟨hZ₀, hZ₁⟩ := h.sum_moved_mem htenth
  have hnext : ∀ s ∈ S, w (t + 1) s =
      moved (raw t s) (w t s) / ∑ i ∈ S, moved (raw t i) (w t i) := by
    intro s hs
    rw [h.step t s hs, poolStep_of_floor_idle htenth hs]
  set Z := ∑ i ∈ S, moved (raw t i) (w t i)
  have hZ : 0 < Z := by linarith
  have hb := moved_of_saturated (hfloor b h.b_mem) hsat
  -- the leader grows by a tenth, and the divisor is at most eleven tenths
  have hgrow : w t b ≤ w (t + 1) b := by
    rw [hnext b h.b_mem, hb, le_div_iff₀ hZ]
    have := h.weight_pos (t := t) h.b_mem
    nlinarith
  refine ⟨hlead.share_le.trans hgrow, ?_, ?_⟩
  · intro s hs
    rw [hnext s hs, hnext b h.b_mem, hb]
    -- nobody grows by more than the leader
    refine div_le_div_of_nonneg_right ?_ hZ.le
    exact (moved_le (hfloor s hs)).trans (by linarith [hlead.le_lead s hs])
  · intro s hs
    have hlim := h.limit_le t s hs
    have hR := h.le_limit s hs
    rcases le_total (w t s) (3 / 4 * raw t s) with hs' | hs'
    · have hsup := moved_of_saturated (hfloor s hs) hs'
      rcases min_le_iff.mp (hlead.kept_up s hs) with hle | hle
      · -- `s` was level with the leader and grows like it
        refine (min_le_left _ _).trans ?_
        rw [hnext s hs, hnext b h.b_mem, hb, hsup]
        exact div_le_div_of_nonneg_right (by linarith) hZ.le
      · -- `s` had reached its limit and does not shrink
        refine (min_le_right _ _).trans ?_
        rw [hnext s hs, hsup, le_div_iff₀ hZ]
        nlinarith
    · -- `s` is beyond its raw weight, and `33/40` of that is `11/10` of `3/4` of it
      refine (min_le_right _ _).trans ?_
      have hlow := le_moved_of_unsaturated (hfloor s hs) hs'
      rw [hnext s hs, le_div_iff₀ hZ]
      nlinarith

/-- A saturated `b` takes an equal `g` along. -/
theorem equal_step (hcard : S.card ≤ 9) (hlead : Leading S b R (w t))
    (hsat : w t b ≤ 3 / 4 * raw t b) (heq : w t b = w t g) : w (t + 1) b = w (t + 1) g := by
  have htenth := h.tenth_le hcard hlead h.b_mem
  have hfloor : 3 / 100 ≤ w t b := by linarith
  have hworse := h.worse t
  rw [h.step t b h.b_mem, h.step t g h.g_mem]
  -- both are moved up by the full tenth of one weight
  apply poolStep_congr
  rw [← heq, moved_of_saturated hfloor hsat, moved_of_saturated hfloor (by linarith)]

/-! ### When the limits leave room -/

/-- If the limits sum to `4/3`, a leader is below `3/4` of its own limit. -/
theorem saturated_of_sum_ge (hsum : 4 / 3 ≤ ∑ s ∈ S, min (R b) (R s))
    (hlead : Leading S b R (w t)) : w t b ≤ 3 / 4 * raw t b := by
  have hlim := h.limit_le t b h.b_mem
  by_contra hunsat
  have hover : 3 / 4 * R b < w t b := by linarith
  -- then all weights together exceed one: `g` strictly, everybody else at least
  have hle : ∀ s ∈ S, 3 / 4 * min (R b) (R s) ≤ w t s := by
    intro s hs
    refine le_trans (le_min ?_ ?_) (hlead.kept_up s hs)
    · have := min_le_left (R b) (R s)
      linarith
    · have := min_le_right (R b) (R s)
      linarith
  have hlt : 3 / 4 * min (R b) (R g) < w t g := by
    refine lt_of_lt_of_le (lt_min ?_ ?_) (hlead.kept_up g h.g_mem)
    · have := min_le_left (R b) (R g)
      linarith
    · have := min_le_left (R b) (R g)
      have := h.limit_worse
      linarith
  -- the sum of all weights is one, `3/4` of the limits is at least one
  have hall := Finset.sum_lt_sum hle ⟨g, h.g_mem, hlt⟩
  rw [← Finset.mul_sum, h.sum_weight t] at hall
  linarith

/-- Then the weights never separate. -/
theorem equal_of_sum_ge (hcard : S.card ≤ 9) (hsum : 4 / 3 ≤ ∑ s ∈ S, min (R b) (R s))
    (t : ℕ) : Leading S b R (w t) ∧ w t b = w t g := by
  induction t with
  | zero =>
    refine ⟨h.leading_start, ?_⟩
    rw [h.start b h.b_mem, h.start g h.g_mem]
  | succ t ih =>
    obtain ⟨hlead, heq⟩ := ih
    have hsat := h.saturated_of_sum_ge hsum hlead
    exact ⟨h.leading_step hcard hlead hsat, h.equal_step hcard hlead hsat heq⟩

/-! ### When they do not -/

/-- Above the lower bound of the clamp, two equal weights separate unless the lower one is
saturated. -/
theorem saturated_of_not_lt (hcard : S.card ≤ 9) (hlead : Leading S b R (w t))
    (heq : w t b = w t g) (hlow : 2 / 3 * w t g < raw t g)
    (hnot : ¬ w (t + 1) b < w (t + 1) g) : w t b ≤ 3 / 4 * raw t b := by
  have htenth : ∀ s ∈ S, 1 / 10 ≤ w t s := fun s hs => h.tenth_le hcard hlead hs
  have hfloor : 3 / 100 ≤ w t g := by linarith [htenth g h.g_mem]
  by_contra hunsat
  apply hnot
  rw [h.step t b h.b_mem, h.step t g h.g_mem, poolStep_of_floor_idle htenth h.b_mem,
    poolStep_of_floor_idle htenth h.g_mem, heq]
  -- equal weights, both moved, one of them further
  have hZ : 0 < ∑ s ∈ S, moved (raw t s) (w t s) :=
    lt_of_lt_of_le (by norm_num) (h.sum_moved_mem htenth).1
  refine div_lt_div_of_pos_right (moved_lt_moved hfloor ?_ (h.worse t) hlow) hZ
  rw [heq] at hunsat
  linarith

/-- At the start only a pool of two can be at the lower bound. -/
theorem above_lower_start (hexc : ¬ (S.card = 2 ∧ raw 0 g ≤ 1 / 3)) :
    2 / 3 * w 0 g < raw 0 g := by
  have htwo := h.two_le_card
  have hfirst := h.first
  rw [h.start g h.g_mem]
  rcases htwo.eq_or_lt with hcard | hcard
  · have hg : 1 / 3 < raw 0 g := by
      by_contra hg
      exact hexc ⟨hcard.symm, not_lt.mp hg⟩
    rw [← hcard]
    norm_num
    linarith
  · -- a third and less is above the lower bound for every possible raw weight
    have hthird : 1 / (S.card : ℝ) ≤ 1 / 3 := by
      apply one_div_le_one_div_of_le (by norm_num)
      exact_mod_cast hcard
    linarith

/-- After a saturated step nobody equal to `b` is at the lower bound: the raw weights fall
too slowly. -/
theorem above_lower_step (hcard : S.card ≤ 9) (hlead : Leading S b R (w t))
    (hsat : w t b ≤ 3 / 4 * raw t b) (heq : w t b = w t g) :
    2 / 3 * w (t + 1) g < raw (t + 1) g := by
  have htenth : ∀ s ∈ S, 1 / 10 ≤ w t s := fun s hs => h.tenth_le hcard hlead hs
  obtain ⟨hZ₀, hZ₁⟩ := h.sum_moved_mem htenth
  have hb := moved_of_saturated (by linarith [htenth b h.b_mem]) hsat
  -- a saturated weight grows by at most `11/9`, and `2/3 * 11/9 * 3/4` is below `9/10`
  have hgrow : w (t + 1) b ≤ 11 / 9 * w t b := by
    rw [h.step t b h.b_mem, poolStep_of_floor_idle htenth h.b_mem, hb,
      div_le_iff₀ (by linarith)]
    have := h.weight_pos (t := t) h.b_mem
    nlinarith
  have hslow := h.slow t b h.b_mem
  have hworse := h.worse (t + 1)
  have hpos := h.weight_pos (t := t) h.b_mem
  rw [← h.equal_step hcard hlead hsat heq]
  linarith

/-- If the weights never separate, `b` leads and is saturated at every step. -/
theorem saturated_of_never_lt (hcard : S.card ≤ 9)
    (hexc : ¬ (S.card = 2 ∧ raw 0 g ≤ 1 / 3)) (hnever : ∀ t, ¬ w t b < w t g) (t : ℕ) :
    Leading S b R (w t) ∧ w t b = w t g ∧ w t b ≤ 3 / 4 * raw t b := by
  induction t with
  | zero =>
    have hlead := h.leading_start
    have heq : w 0 b = w 0 g := by rw [h.start b h.b_mem, h.start g h.g_mem]
    exact ⟨hlead, heq, h.saturated_of_not_lt hcard hlead heq (h.above_lower_start hexc)
      (hnever 1)⟩
  | succ t ih =>
    obtain ⟨hlead, heq, hsat⟩ := ih
    -- one step further, where `b` leads again and is equal to `g` again
    have hlead' := h.leading_step hcard hlead hsat
    have heq' := h.equal_step hcard hlead hsat heq
    exact ⟨hlead', heq', h.saturated_of_not_lt hcard hlead' heq'
      (h.above_lower_step hcard hlead hsat heq) (hnever (t + 2))⟩

/-- The divisor of a saturated step, by what the raw weights leave room for. -/
theorem sum_moved_le (hcard : S.card ≤ 9) (hlead : Leading S b R (w t))
    (hsat : w t b ≤ 3 / 4 * raw t b) :
    ∑ s ∈ S, moved (raw t s) (w t s) ≤
      11 / 10 - 1 / 5 * (1 - 3 / 4 * ∑ s ∈ S, min (raw t b) (raw t s)) := by
  have hone : ∀ s ∈ S, moved (raw t s) (w t s) ≤
      11 / 10 * w t s - 1 / 5 * (w t s - 3 / 4 * min (raw t b) (raw t s)) := by
    intro s hs
    have htenth := h.tenth_le hcard hlead hs
    have hraw := (h.le_limit s hs).trans (h.limit_le t s hs)
    exact moved_le_sub_deficit (by linarith) (by linarith) ((hlead.le_lead s hs).trans hsat)
  -- the weights sum to one, the deficits to what is missing
  refine (Finset.sum_le_sum hone).trans (le_of_eq ?_)
  simp only [Finset.sum_sub_distrib, ← Finset.mul_sum, h.sum_weight t]
  ring

/-- If the limits sum to less than `4/3`, a saturated `b` ends up growing geometrically. -/
theorem exists_growth (hcard : S.card ≤ 9) (hsum : ∑ s ∈ S, min (R b) (R s) < 4 / 3)
    (hall : ∀ t, Leading S b R (w t) ∧ w t b ≤ 3 / 4 * raw t b) :
    ∃ ρ > 1, ∃ T, ∀ t ≥ T, ρ * w t b ≤ w (t + 1) b := by
  -- `σ` is a bound strictly between the limit and `4/3`
  obtain ⟨σ, hσ₀, hσ₁⟩ := exists_between hsum
  have hlim : Tendsto (fun t => ∑ s ∈ S, min (raw t b) (raw t s)) atTop
      (𝓝 (∑ s ∈ S, min (R b) (R s))) :=
    tendsto_finsetSum S fun s hs => (h.tendsto b h.b_mem).min (h.tendsto s hs)
  obtain ⟨T, hT⟩ := eventually_atTop.mp (hlim.eventually_lt_const hσ₀)
  set D := 11 / 10 - 1 / 5 * (1 - 3 / 4 * σ) with hD
  have hZle : ∀ t ≥ T, ∑ s ∈ S, moved (raw t s) (w t s) ≤ D := by
    intro t ht
    obtain ⟨hlead, hsat⟩ := hall t
    refine (h.sum_moved_le hcard hlead hsat).trans ?_
    have hlt := hT t ht
    rw [hD]
    linarith
  -- the divisor is positive, and `D` is above it
  have hDpos : 0 < D := by
    have htenth : ∀ s ∈ S, 1 / 10 ≤ w T s := fun s hs => h.tenth_le hcard (hall T).1 hs
    have hge := (h.sum_moved_mem htenth).1
    have hle := hZle T le_rfl
    linarith
  refine ⟨11 / 10 / D, ?_, T, ?_⟩
  · rw [gt_iff_lt, one_lt_div hDpos, hD]
    linarith
  · intro t ht
    obtain ⟨hlead, hsat⟩ := hall t
    have htenth : ∀ s ∈ S, 1 / 10 ≤ w t s := fun s hs => h.tenth_le hcard hlead hs
    have hZ : 0 < ∑ s ∈ S, moved (raw t s) (w t s) :=
      lt_of_lt_of_le (by norm_num) (h.sum_moved_mem htenth).1
    rw [h.step t b h.b_mem, poolStep_of_floor_idle htenth h.b_mem,
      moved_of_saturated (by linarith [htenth b h.b_mem]) hsat, div_mul_eq_mul_div]
    have hpos := h.weight_pos (t := t) h.b_mem
    exact div_le_div_of_nonneg_left (by linarith) hZ (hZle t ht)

/-- A weight cannot grow geometrically for ever. -/
theorem not_growth {ρ : ℝ} (hρ : 1 < ρ) {T : ℕ} :
    ¬ ∀ t ≥ T, ρ * w t b ≤ w (t + 1) b := by
  intro hgrow
  -- induction on the steps after `T`
  have hpow : ∀ k, ρ ^ k * w T b ≤ w (T + k) b := by
    intro k
    induction k with
    | zero => rw [pow_zero, one_mul, Nat.add_zero]
    | succ k ih =>
      calc ρ ^ (k + 1) * w T b = ρ * (ρ ^ k * w T b) := by ring
        _ ≤ ρ * w (T + k) b := mul_le_mul_of_nonneg_left ih (by linarith)
        _ ≤ w (T + k + 1) b := hgrow (T + k) (Nat.le_add_right T k)
  have hpos := h.weight_pos (t := T) h.b_mem
  obtain ⟨k, hk⟩ := pow_unbounded_of_one_lt (1 / w T b) hρ
  have hone := h.weight_le_one (t := T + k) h.b_mem
  rw [div_lt_iff₀ hpos] at hk
  exact absurd (hk.trans_le (hpow k)) (not_lt.mpr hone)

/-- **When the worse backend falls behind.** -/
theorem exists_lt_iff : (∃ t, w t b < w t g) ↔
    ∑ s ∈ S, min (R b) (R s) < 4 / 3 ∧ ¬ (S.card = 2 ∧ raw 0 g ≤ 1 / 3) := by
  refine ⟨?_, ?_⟩
  · rintro ⟨t, hlt⟩
    refine ⟨?_, ?_⟩
    · -- room enough for everybody: up to nine stay equal by the limits, ten and more anyway
      by_contra hsum
      rw [not_lt] at hsum
      rcases Nat.lt_or_ge S.card 10 with hcard | hcard
      · have heq := (h.equal_of_sum_ge (Nat.le_of_lt_succ hcard) hsum t).2
        exact hlt.ne heq
      · have hequal := h.equal_of_ten_le_card hcard t
        exact hlt.ne ((hequal b h.b_mem).trans (hequal g h.g_mem).symm)
    · rintro ⟨hcard, hlow⟩
      have hequal := h.equal_of_both_low hcard hlow t
      exact hlt.ne ((hequal b h.b_mem).trans (hequal g h.g_mem).symm)
  · rintro ⟨hsum, hexc⟩
    -- ten limits of at least `2/15` would sum to `4/3`
    have hcard : S.card ≤ 9 := by
      by_contra hcard
      have hten : (10 : ℝ) ≤ S.card := by
        exact_mod_cast (by omega : 10 ≤ S.card)
      have hge : ∀ s ∈ S, 2 / 15 ≤ min (R b) (R s) := fun s hs =>
        le_min (h.le_limit b h.b_mem) (h.le_limit s hs)
      have hall := Finset.card_nsmul_le_sum S _ _ hge
      rw [nsmul_eq_mul] at hall
      linarith
    -- if they never separated, `b` would be saturated for ever and outgrow one
    by_contra hnever
    rw [not_exists] at hnever
    have hall := h.saturated_of_never_lt hcard hexc hnever
    obtain ⟨ρ, hρ, T, hgrow⟩ :=
      h.exists_growth hcard hsum fun t => ⟨(hall t).1, (hall t).2.2⟩
    exact h.not_growth hρ hgrow

end PersistentRun

end ScalableBooking.RouterCore
