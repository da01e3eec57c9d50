import Mathlib.Data.Fintype.Card
import Mathlib.Data.Fintype.Prod
import ScalableBooking.RouterCore.Router

/-!
# The draw favours no server

`choose_server` draws two indices and advances the second one, modulo the length of the pool,
when it collides with the first. The two candidates are therefore not independent. Over all
pairs of draws every position is nevertheless the first candidate as often as the second one:
what the collision takes away from a position, the collision at its predecessor gives back
(`card_avoidCollision_eq`).

Which of the candidates is returned is a matter of their effective weights. When these are all
the same, the first candidate always wins, and every server is returned equally often
(`Router.draw_fair`).
-/

namespace ScalableBooking.RouterCore

open Finset

/-! ### Positions -/

section Positions

variable {n : ℕ}

/-- The position to which a second draw that collides is advanced. -/
def nextPosition (i : Fin n) : Fin n := ⟨(i + 1) % n, Nat.mod_lt _ i.pos⟩

theorem avoidCollision_self (i : Fin n) : avoidCollision i i = nextPosition i := if_pos rfl

theorem nextPosition_injective : Function.Injective (nextPosition : Fin n → Fin n) := by
  intro i j h
  have hval : (i.val + 1) % n = (j.val + 1) % n := congrArg Fin.val h
  have hi := i.isLt
  have hj := j.isLt
  apply Fin.ext
  -- at most one of the two wraps around
  rcases Nat.lt_or_ge (i.val + 1) n with hi' | hi' <;>
    rcases Nat.lt_or_ge (j.val + 1) n with hj' | hj'
  · rw [Nat.mod_eq_of_lt hi', Nat.mod_eq_of_lt hj'] at hval
    omega
  · rw [Nat.mod_eq_of_lt hi', show j.val + 1 = n by omega, Nat.mod_self] at hval
    omega
  · rw [Nat.mod_eq_of_lt hj', show i.val + 1 = n by omega, Nat.mod_self] at hval
    omega
  · omega

/-- The pairs of draws that make `k` the second candidate: `k` is drawn after another
position, or the predecessor of `k` is drawn twice. -/
theorem avoidCollision_eq_iff {k p : Fin n} (hp : nextPosition p = k) (hpk : p ≠ k)
    (i j : Fin n) :
    avoidCollision i j = k ↔ (j = k ∧ i ≠ k) ∨ (i = p ∧ j = p) := by
  -- a collision moves the second draw on to the next position
  by_cases hji : j = i
  · subst hji
    rw [avoidCollision_self, ← hp, nextPosition_injective.eq_iff]
    constructor
    · exact fun h => Or.inr ⟨h, h⟩
    · rintro (⟨h, hne⟩ | ⟨h, -⟩)
      · exact absurd h hne
      · exact h
  · rw [Router.avoidCollision_of_ne hji]
    constructor
    · rintro rfl
      exact Or.inl ⟨rfl, fun h => hji h.symm⟩
    · rintro (⟨h, -⟩ | ⟨hi, hj⟩)
      · exact h
      · exact absurd (hj.trans hi.symm) hji

/-- Every position is the first candidate for `n` pairs of draws, -/
theorem card_fst_eq (k : Fin n) : #{p : Fin n × Fin n | p.1 = k} = n := by
  have h : ({p : Fin n × Fin n | p.1 = k} : Finset _) = {k} ×ˢ univ := by
    ext ⟨i, j⟩
    simp [eq_comm]
  rw [h, card_product, card_singleton, card_univ, Fintype.card_fin, Nat.one_mul]

/-- and the second candidate for as many. -/
theorem card_avoidCollision_eq (hn : n ≠ 1) (k : Fin n) :
    #{p : Fin n × Fin n | avoidCollision p.1 p.2 = k} = n := by
  obtain ⟨p, hp⟩ := (Finite.injective_iff_surjective.mp nextPosition_injective) k
  have hpk : p ≠ k := by
    rintro rfl
    exact Router.avoidCollision_ne hn p p ((avoidCollision_self p).trans hp)
  -- `n - 1` pairs without a collision, and the one that collides just before `k`
  have h : ({q : Fin n × Fin n | avoidCollision q.1 q.2 = k} : Finset _) =
      insert (p, p) (univ.erase k ×ˢ {k}) := by
    ext ⟨i, j⟩
    simp only [mem_filter_univ, avoidCollision_eq_iff hp hpk, mem_insert, Prod.mk.injEq,
      mem_product, mem_erase, mem_univ, and_true, mem_singleton]
    tauto
  have hnot : (p, p) ∉ univ.erase k ×ˢ ({k} : Finset (Fin n)) := by
    simp [hpk.symm]
  rw [h, card_insert_of_notMem hnot, card_product, card_singleton, card_erase_of_mem (mem_univ k),
    card_univ, Fintype.card_fin]
  have := k.pos
  omega

/-- So it is a candidate for twice as many. -/
theorem card_candidate (hn : n ≠ 1) (k : Fin n) :
    #{p : Fin n × Fin n | p.1 = k ∨ avoidCollision p.1 p.2 = k} = 2 * n := by
  rw [filter_or, card_union_of_disjoint, card_fst_eq, card_avoidCollision_eq hn, Nat.two_mul]
  -- no position is both candidates
  rw [disjoint_filter]
  rintro ⟨i, j⟩ - rfl
  exact Router.avoidCollision_ne hn i j

end Positions

/-! ### Servers -/

namespace Router

variable {r : Router} {fastSignals : SignalMap} {now : Instant}

/-- A score that is missing or stale, and no threshold exceeded, leave an equal share. -/
theorem effectiveOf_of_stale {s : ServerId}
    (hstale : ∀ score, r.scoreboard.inner.lookup s = some score →
      r.scoreboard.stalenessTtl ≤ durationSince now score.updatedAt)
    (hsignal : r.exceeded (fastSignals.lookup s) = 0) :
    r.effectiveOf fastSignals now s = 1 / r.servers.length := by
  rw [effectiveOf_eq, hsignal, pow_zero, mul_one, baseOf]
  cases hlookup : r.scoreboard.inner.lookup s with
  | none => rfl
  | some score => exact if_neg (not_lt.mpr (hstale score hlookup))

/-- On equal weights the first candidate wins. -/
theorem chooseServerAt_of_eq (hn : r.servers.length ≠ 1)
    (heq : ∀ s ∈ r.servers, ∀ t ∈ r.servers,
      r.effectiveOf fastSignals now s = r.effectiveOf fastSignals now t)
    (u v : Fin r.servers.length) :
    r.chooseServerAt fastSignals now u v = r.servers.get u := by
  rw [chooseServerAt_of_ne_one hn, better, if_pos]
  exact (heq _ (List.get_mem _ _) _ (List.get_mem _ _)).le

/-- **The draw is fair to every server.** In a pool of two or more distinct servers the two
candidates are distinct and the one returned weighs at least as much as the other. Over the
pairs of draws every server is a candidate equally often; and if all effective weights agree,
every server is returned equally often. -/
theorem draw_fair (hnd : r.servers.Nodup) (hn : 2 ≤ r.servers.length)
    (fastSignals : SignalMap) (now : Instant) :
    (∀ u v : Fin r.servers.length,
      r.servers.get u ≠ r.servers.get (avoidCollision u v) ∧
      ((r.chooseServerAt fastSignals now u v = r.servers.get u ∧
          r.effectiveOf fastSignals now (r.servers.get (avoidCollision u v)) ≤
            r.effectiveOf fastSignals now (r.servers.get u)) ∨
        (r.chooseServerAt fastSignals now u v = r.servers.get (avoidCollision u v) ∧
          r.effectiveOf fastSignals now (r.servers.get u) ≤
            r.effectiveOf fastSignals now (r.servers.get (avoidCollision u v))))) ∧
    (∀ s ∈ r.servers, #{p : Fin r.servers.length × Fin r.servers.length |
      r.servers.get p.1 = s ∨ r.servers.get (avoidCollision p.1 p.2) = s} =
        2 * r.servers.length) ∧
    ((∀ s ∈ r.servers, ∀ t ∈ r.servers,
        r.effectiveOf fastSignals now s = r.effectiveOf fastSignals now t) →
      ∀ s ∈ r.servers, #{p : Fin r.servers.length × Fin r.servers.length |
        r.chooseServerAt fastSignals now p.1 p.2 = s} = r.servers.length) := by
  have h1 : r.servers.length ≠ 1 := by omega
  refine ⟨fun u v => ⟨?_, ?_⟩, ?_, ?_⟩
  · intro h
    exact avoidCollision_ne h1 u v (hnd.injective_get h).symm
  · rw [chooseServerAt_of_ne_one h1]
    rcases r.better_spec fastSignals now (r.servers.get u)
      (r.servers.get (avoidCollision u v)) with h | ⟨hwin, hlt⟩
    · exact Or.inl h
    · exact Or.inr ⟨hwin, hlt.le⟩
  · intro s hs
    obtain ⟨k, rfl⟩ := List.mem_iff_get.mp hs
    simp only [hnd.injective_get.eq_iff]
    exact card_candidate h1 k
  · intro heq s hs
    obtain ⟨k, rfl⟩ := List.mem_iff_get.mp hs
    simp only [chooseServerAt_of_eq h1 heq, hnd.injective_get.eq_iff]
    exact card_fst_eq k

/-- Three servers before the first prediction. -/
noncomputable def unscored : Router :=
  ⟨Scoreboard.new ScoreboardConfig.default, [⟨0⟩, ⟨1⟩, ⟨2⟩], SafetyThresholds.default, 1⟩

theorem draw_fair_unscored :
    #{p : Fin unscored.servers.length × Fin unscored.servers.length |
      unscored.servers.get p.1 = ⟨2⟩ ∨ unscored.servers.get (avoidCollision p.1 p.2) = ⟨2⟩} = 6 ∧
    #{p : Fin unscored.servers.length × Fin unscored.servers.length |
      unscored.chooseServerAt ∅ 0 p.1 p.2 = ⟨2⟩} = 3 := by
  have hequal (s : ServerId) :
      unscored.effectiveOf ∅ 0 s = 1 / unscored.servers.length := by
    refine effectiveOf_of_stale (fun score h => ?_) rfl
    cases h
  have hmem : (⟨2⟩ : ServerId) ∈ unscored.servers := by decide
  obtain ⟨-, hcandidate, hreturned⟩ := draw_fair (r := unscored) (by decide) (by decide) ∅ 0
  exact ⟨hcandidate _ hmem, hreturned (fun s _ t _ => (hequal s).trans (hequal t).symm) _ hmem⟩

end Router

end ScalableBooking.RouterCore
