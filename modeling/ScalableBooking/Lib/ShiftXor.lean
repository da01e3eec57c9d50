import Mathlib.Data.FinEnum
import Mathlib.Dynamics.PeriodicPts.Lemmas

/-!
# Maps of words that add a shifted copy

A generator of the xorshift family repeats `x ↦ x ^^^ T x`, where `T` is a shift. `T` is linear
over the exclusive or, and it dies out: repeated often enough it shifts everything away. That alone
makes the map injective (`DiesOut.injective`), for the difference of two words with one image is a
fixed point of `T`, hence zero.

An injective map of a finite type has no orbit with a tail: every orbit comes back to its start, and
all of its points are on the same cycle (`minimalPeriod_iterate`).
-/

namespace ScalableBooking.ShiftXor

variable {w k : ℕ} {T : BitVec w → BitVec w}

/-- A linear map some power of which is zero. -/
structure DiesOut (T : BitVec w → BitVec w) : Prop where
  map_xor : ∀ x y, T (x ^^^ y) = T x ^^^ T y
  iterate_eq_zero : ∃ n, ∀ x, T^[n] x = 0

/-- The word and its image under `T`, added bit by bit. -/
def addImage (T : BitVec w → BitVec w) (x : BitVec w) : BitVec w := x ^^^ T x

namespace DiesOut

/-- Only zero is a fixed point. -/
theorem eq_zero_of_fixed (hT : DiesOut T) {x : BitVec w} (h : T x = x) : x = 0 := by
  obtain ⟨n, hn⟩ := hT.iterate_eq_zero
  calc x = T^[n] x := (Function.iterate_fixed h n).symm
    _ = 0 := hn x

theorem map_zero (hT : DiesOut T) : T 0 = 0 := by
  have h := hT.map_xor 0 0
  rw [BitVec.xor_self, BitVec.xor_self] at h
  exact h

theorem injective (hT : DiesOut T) : Function.Injective (addImage T) := by
  intro x y hxy
  -- the difference is a fixed point
  have hfixed : T (x ^^^ y) = x ^^^ y := by
    unfold addImage at hxy
    calc T (x ^^^ y) = T x ^^^ T y := hT.map_xor x y
      _ = x ^^^ (x ^^^ T x) ^^^ T y := by rw [← BitVec.xor_assoc, BitVec.xor_self, BitVec.zero_xor]
      _ = x ^^^ (y ^^^ T y) ^^^ T y := by rw [hxy]
      _ = x ^^^ y := by
        rw [BitVec.xor_assoc, BitVec.xor_assoc, BitVec.xor_self, BitVec.xor_zero]
  have hzero := hT.eq_zero_of_fixed hfixed
  calc x = x ^^^ y ^^^ y := by rw [BitVec.xor_assoc, BitVec.xor_self, BitVec.xor_zero]
    _ = 0 ^^^ y := by rw [hzero]
    _ = y := BitVec.zero_xor

theorem addImage_zero (hT : DiesOut T) : addImage T 0 = 0 := by
  unfold addImage
  rw [hT.map_zero]
  exact BitVec.xor_self

end DiesOut

/-! ### Shifts -/

theorem iterate_shiftLeft (x : BitVec w) (n : ℕ) :
    (fun y : BitVec w => y <<< k)^[n] x = x <<< (k * n) := by
  induction n with
  | zero => rw [Function.iterate_zero_apply, Nat.mul_zero, BitVec.shiftLeft_zero]
  | succ n ih =>
    rw [Function.iterate_succ_apply', ih, Nat.mul_succ, BitVec.shiftLeft_add]

theorem iterate_ushiftRight (x : BitVec w) (n : ℕ) :
    (fun y : BitVec w => y >>> k)^[n] x = x >>> (k * n) := by
  induction n with
  | zero => rw [Function.iterate_zero_apply, Nat.mul_zero, BitVec.ushiftRight_zero]
  | succ n ih =>
    rw [Function.iterate_succ_apply', ih, Nat.mul_succ, BitVec.shiftRight_add]

/-- A shift by at least one place has shifted everything away after `w` times. -/
theorem diesOut_shiftLeft (hk : 0 < k) : DiesOut fun x : BitVec w => x <<< k where
  map_xor x y := BitVec.shiftLeft_xor_distrib x y k
  iterate_eq_zero := by
    refine ⟨w, fun x => ?_⟩
    rw [iterate_shiftLeft]
    exact BitVec.shiftLeft_eq_zero (Nat.le_mul_of_pos_left w hk)

theorem diesOut_ushiftRight (hk : 0 < k) : DiesOut fun x : BitVec w => x >>> k where
  map_xor x y := BitVec.ushiftRight_xor_distrib x y k
  iterate_eq_zero := by
    refine ⟨w, fun x => ?_⟩
    rw [iterate_ushiftRight]
    exact BitVec.ushiftRight_eq_zero (Nat.le_mul_of_pos_left w hk)

/-! ### Orbits -/

section Orbits

variable {α : Type*} {f : α → α}

/-- What an injective map sends to a fixed point is the fixed point. -/
theorem iterate_ne_of_fixed (hf : Function.Injective f) {z x : α} (hz : f z = z) (hx : x ≠ z)
    (n : ℕ) : f^[n] x ≠ z := by
  intro h
  exact hx (hf.iterate n (h.trans (Function.iterate_fixed hz n).symm))

/-- Every point of an orbit lies on the cycle of the start. -/
theorem minimalPeriod_iterate [Finite α] (hf : Function.Injective f) (x : α) (n : ℕ) :
    Function.minimalPeriod f (f^[n] x) = Function.minimalPeriod f x :=
  Function.minimalPeriod_apply_iterate (hf.mem_periodicPts x) n

end Orbits

end ScalableBooking.ShiftXor
