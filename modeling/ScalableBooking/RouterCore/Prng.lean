import Mathlib.Data.PNat.Notation
import ScalableBooking.Lib.ShiftXor
import ScalableBooking.RouterCore.Router

/-!
# The router's generator

`fast_random_index` steps a xorshift generator and takes the new state modulo the size of the pool.
The state zero would be kept for ever, and with it the index zero. It is never reached: each of the
three lines of the step adds a shifted copy of the word, which is injective (`xorshift_injective`),
so only zero is sent to zero, and `Router::new` sets a bit of the seed. By the same token the states
of a router go round on one cycle, without a tail before it.
-/

namespace ScalableBooking.RouterCore

open ShiftXor Function

/-! ### The step -/

/-- The three lines of the step. -/
theorem xorshift_eq : xorshift =
    addImage (fun s : BitVec 64 => s <<< 17) ∘ addImage (fun s : BitVec 64 => s >>> 7) ∘
      addImage (fun s : BitVec 64 => s <<< 13) := rfl

theorem xorshift_injective : Injective xorshift := by
  rw [xorshift_eq]
  apply Injective.comp
  · exact (diesOut_shiftLeft (by decide)).injective
  · apply Injective.comp
    · exact (diesOut_ushiftRight (by decide)).injective
    · exact (diesOut_shiftLeft (by decide)).injective

theorem xorshift_zero : xorshift 0 = 0 := by
  rw [xorshift_eq, comp_apply, comp_apply, (diesOut_shiftLeft (by decide)).addImage_zero,
    (diesOut_ushiftRight (by decide)).addImage_zero, (diesOut_shiftLeft (by decide)).addImage_zero]

theorem or_one_ne_zero (seed : BitVec 64) : seed ||| 1 ≠ 0 := by
  intro h
  -- the lowest bit is set
  have hbit := congrArg (fun s : BitVec 64 => s.getLsbD 0) h
  simp at hbit

/-! ### Draws -/

namespace Router

/-- One draw after another, from pools of the given sizes. The indices come as the numbers they
are. -/
def drawAll (r : Router) : List ℕ+ → List ℕ × Router
  | [] => ([], r)
  | n :: sizes =>
    let (i, r) := r.fastRandomIndex n.pos
    let (indices, r) := r.drawAll sizes
    (i.val :: indices, r)

theorem rngState_drawAll (r : Router) (sizes : List ℕ+) :
    (r.drawAll sizes).2.rngState = xorshift^[sizes.length] r.rngState := by
  induction sizes generalizing r with
  | nil => rfl
  | cons n sizes ih =>
    show ((r.fastRandomIndex n.pos).2.drawAll sizes).2.rngState = _
    rw [ih, List.length_cons, iterate_succ_apply]
    rfl

/-- Every index is below the size of its pool. -/
theorem indices_drawAll (r : Router) (sizes : List ℕ+) :
    List.Forall₂ (fun i (n : ℕ+) => i < n.val) (r.drawAll sizes).1 sizes := by
  induction sizes generalizing r with
  | nil => exact .nil
  | cons n sizes ih => exact .cons (r.fastRandomIndex n.pos).1.isLt (ih _)

/-- A decision on a pool of two or more makes two draws, any other none. -/
theorem rngState_chooseServer (r : Router) (fastSignals : SignalMap) (now : Instant) :
    (r.chooseServer fastSignals now).2.rngState =
      if h : 1 < r.servers.length then
        (r.drawAll (List.replicate 2 ⟨r.servers.length, by omega⟩)).2.rngState
      else r.rngState := by
  unfold chooseServer
  split
  · split
    · next h1 => rw [dif_neg (by omega)]
    · next h1 =>
      rw [dif_pos (by omega)]
      rfl
  · next h0 => rw [dif_neg (by omega)]

/-- **The generator never collapses.** After any number of draws from pools of any sizes, the state
of a new router is an iterate of the step, and not zero. The step is injective, the states of the
router come back to the first one, from any of them the way round is as long as from the first, and
every index is below the size of its pool. -/
theorem rngState_never_collapses (scoreboard : Scoreboard) (servers : List ServerId)
    (safety : SafetyThresholds) (seed : BitVec 64) (sizes : List ℕ+) :
    let r := new scoreboard servers safety seed
    (r.drawAll sizes).2.rngState = xorshift^[sizes.length] (seed ||| 1) ∧
    (r.drawAll sizes).2.rngState ≠ 0 ∧
    Injective xorshift ∧
    (∃ p, 0 < p ∧ xorshift^[p] (seed ||| 1) = seed ||| 1) ∧
    minimalPeriod xorshift (r.drawAll sizes).2.rngState =
      minimalPeriod xorshift (seed ||| 1) ∧
    List.Forall₂ (fun i (n : ℕ+) => i < n.val) (r.drawAll sizes).1 sizes := by
  intro r
  have hstate : (r.drawAll sizes).2.rngState = xorshift^[sizes.length] (seed ||| 1) :=
    rngState_drawAll r sizes
  refine ⟨hstate, ?_, xorshift_injective, ?_, ?_, indices_drawAll r sizes⟩
  · rw [hstate]
    exact iterate_ne_of_fixed xorshift_injective xorshift_zero (or_one_ne_zero seed) _
  · exact xorshift_injective.mem_periodicPts (seed ||| 1)
  · rw [hstate]
    exact minimalPeriod_iterate xorshift_injective _ _

end Router

end ScalableBooking.RouterCore
