import ScalableBooking.Lib.CasLoop
import ScalableBooking.LbProxy.Health

/-!
# The range of the latency average

`update_latency_ema` rounds down twice in every call, and a stored zero reads as no average at all.
The rounding does not add up. A call loses less than two nanoseconds and keeps only nine tenths of
what was lost before, so the average settles less than nineteen nanoseconds below the smallest
latency (`InRange.next`). A zero can only be stored when that bound is below zero, and the latency
that replaces it is in range anyway.

Calls on several threads retry until their compare-exchange succeeds, so they take effect one after
another (`CasLoop.State.run_atomic`), and a pass whose exchange fails has worked on an average that
was in range too.
-/

namespace ScalableBooking.LbProxy

open RouterCore CasLoop

/-- What a pass of the loop in `update_latency_ema` stores if its exchange succeeds. -/
def nextEma (latency : Duration) (cur : BitVec 64) : BitVec 64 :=
  let latNs := BitVec.ofNat 64 latency
  if cur = emptyEmaSentinel then latNs else saturatingMul cur 9 / 10 + latNs / 10

theorem latencyEmaNs_updateLatencyEma (h : ServerHealth) (latency : Duration) :
    (h.updateLatencyEma latency).latencyEmaNs = nextEma latency h.latencyEmaNs := rfl

/-! ### One pass of the loop -/

/-- The same on numbers without a bound. -/
def exactEma (latency cur : ℕ) : ℕ := if cur = 0 then latency else cur * 9 / 10 + latency / 10

/-- No step of a pass leaves the 64 bits: the cast keeps the latency, and unless there is no average
yet, the product does not saturate and the sum does not wrap. -/
structure Exact (latency : Duration) (cur : BitVec 64) : Prop where
  cast : (BitVec.ofNat 64 latency).toNat = latency
  product : cur ≠ emptyEmaSentinel → (saturatingMul cur 9).toNat = cur.toNat * 9
  sum : cur ≠ emptyEmaSentinel →
    (saturatingMul cur 9 / 10).toNat + (BitVec.ofNat 64 latency / 10).toNat < 2 ^ 64

theorem toNat_saturatingMul {x y : BitVec 64} (h : x.toNat * y.toNat < 2 ^ 64) :
    (saturatingMul x y).toNat = x.toNat * y.toNat := by
  unfold saturatingMul
  rw [if_pos h, BitVec.toNat_mul, Nat.mod_eq_of_lt h]

/-- Below a ninth of the largest word nothing is lost. -/
theorem Exact.of_le {latency M : ℕ} {cur : BitVec 64} (hM : M ≤ (2 ^ 64 - 1) / 9)
    (hlat : latency ≤ M) (hcur : cur.toNat ≤ M) : Exact latency cur := by
  have hcast : (BitVec.ofNat 64 latency).toNat = latency := by
    rw [BitVec.toNat_ofNat, Nat.mod_eq_of_lt]
    omega
  have hproduct : (saturatingMul cur 9).toNat = cur.toNat * 9 := by
    refine toNat_saturatingMul ?_
    show cur.toNat * 9 < 2 ^ 64
    omega
  refine ⟨hcast, fun _ => hproduct, fun _ => ?_⟩
  rw [BitVec.toNat_udiv, BitVec.toNat_udiv, hproduct, hcast]
  show cur.toNat * 9 / 10 + latency / 10 < 2 ^ 64
  omega

/-- Such a pass computes what the numbers give. -/
theorem Exact.toNat_nextEma {latency : Duration} {cur : BitVec 64} (h : Exact latency cur) :
    (nextEma latency cur).toNat = exactEma latency cur.toNat := by
  unfold nextEma exactEma
  by_cases hcur : cur = emptyEmaSentinel
  · rw [if_pos hcur, hcur, h.cast]
    rfl
  · have hne : cur.toNat ≠ 0 := fun h₀ => hcur (BitVec.eq_of_toNat_eq h₀)
    rw [if_neg hcur, if_neg hne, BitVec.toNat_add, Nat.mod_eq_of_lt (h.sum hcur),
      BitVec.toNat_udiv, BitVec.toNat_udiv, h.product hcur, h.cast]
    rfl

/-! ### The range -/

section Range

variable {m M : ℕ}

/-- An average of latencies between `m` and `M`, with what the rounding may have cost. -/
structure InRange (m M : ℕ) (ema : BitVec 64) : Prop where
  le_max : ema.toNat ≤ M
  min_lt : m < ema.toNat + 19

/-- An average in range, or none yet. -/
def EmptyOrInRange (m M : ℕ) (ema : BitVec 64) : Prop := ema = emptyEmaSentinel ∨ InRange m M ema

theorem EmptyOrInRange.le_max {ema : BitVec 64} (h : EmptyOrInRange m M ema) : ema.toNat ≤ M := by
  rcases h with rfl | h
  · exact Nat.zero_le M
  · exact h.le_max

theorem EmptyOrInRange.exact {latency : Duration} {ema : BitVec 64} (h : EmptyOrInRange m M ema)
    (hM : M ≤ (2 ^ 64 - 1) / 9) (hlat : latency ≤ M) : Exact latency ema :=
  .of_le hM hlat h.le_max

/-- On numbers. At eighteen below the minimum, the tenth of that gap which a call makes good
outweighs the nine tenths of a nanosecond that each of the divisions can cost. -/
theorem exactEma_mem {latency cur : ℕ} (hlat : m ≤ latency ∧ latency ≤ M)
    (hcur : cur = 0 ∨ cur ≤ M ∧ m < cur + 19) :
    exactEma latency cur ≤ M ∧ m < exactEma latency cur + 19 := by
  unfold exactEma
  split <;> omega

/-- One call leaves an average in range. -/
theorem EmptyOrInRange.next {latency : Duration} {ema : BitVec 64} (h : EmptyOrInRange m M ema)
    (hM : M ≤ (2 ^ 64 - 1) / 9) (hlat : m ≤ latency ∧ latency ≤ M) :
    InRange m M (nextEma latency ema) := by
  have hcur : ema.toNat = 0 ∨ ema.toNat ≤ M ∧ m < ema.toNat + 19 := by
    rcases h with rfl | h
    · exact Or.inl rfl
    · exact Or.inr ⟨h.le_max, h.min_lt⟩
  have hnext := (h.exact hM hlat.2).toNat_nextEma
  obtain ⟨hle, hlt⟩ := exactEma_mem hlat hcur
  exact ⟨by rwa [hnext], by rwa [hnext]⟩

/-- So do any number of calls. -/
theorem EmptyOrInRange.applyAll {P : Type*} {latency : P → Duration} {ema : BitVec 64}
    (h : EmptyOrInRange m M ema) (hM : M ≤ (2 ^ 64 - 1) / 9)
    (hlat : ∀ p, m ≤ latency p ∧ latency p ≤ M) (order : List P) :
    EmptyOrInRange m M (CasLoop.applyAll (fun p => nextEma (latency p)) ema order) := by
  induction order generalizing ema with
  | nil => exact h
  | cons p order ih => exact ih (Or.inr (h.next hM (hlat p)))

end Range

/-! ### Concurrent calls -/

/-- The calls that take effect one by one, as calls on the whole record. -/
theorem latencyEmaNs_foldl {P : Type*} (latency : P → Duration) (h : ServerHealth)
    (order : List P) :
    (order.foldl (fun h p => h.updateLatencyEma (latency p)) h).latencyEmaNs =
      applyAll (fun p => nextEma (latency p)) h.latencyEmaNs order := by
  induction order generalizing h with
  | nil => rfl
  | cons p order ih =>
    rw [List.foldl_cons, ih, latencyEmaNs_updateLatencyEma]
    rfl

/-- **The range of the average.** Any number of calls with latencies between `m` and `M`, on any
number of threads: they take effect one by one in some order; no pass of the loop overflows, also
none whose exchange is going to fail; and as soon as one call has finished, the stored average is at
most `M` and more than `m - 19`. -/
theorem latencyEma_range {P : Type*} [DecidableEq P] {latency : P → Duration} {m M : ℕ}
    {events : List (CasLoop.Event P)} {st : CasLoop.State (BitVec 64) P}
    (hM : M ≤ (2 ^ 64 - 1) / 9) (hlat : ∀ p, m ≤ latency p ∧ latency p ≤ M)
    (hrun : (CasLoop.State.start ServerHealth.new.latencyEmaNs).run
      (fun p => nextEma (latency p)) events = some st) :
    (∃ order : List P, order.Nodup ∧ (∀ p, p ∈ order ↔ st.phase p = .done) ∧
      st.cell = (order.foldl (fun h p => h.updateLatencyEma (latency p))
        ServerHealth.new).latencyEmaNs) ∧
    (∀ p cur, st.phase p = .exchange cur → Exact (latency p) cur) ∧
    ((∃ p, st.phase p = .done) → InRange m M st.cell) := by
  have hempty : EmptyOrInRange m M ServerHealth.new.latencyEmaNs := Or.inl rfl
  obtain ⟨order, hlin⟩ := CasLoop.State.run_atomic hrun
  refine ⟨⟨order, hlin.nodup, hlin.mem_iff, ?_⟩, ?_, ?_⟩
  · rw [latencyEmaNs_foldl, hlin.cell_eq]
  · -- what an exchange expects has been in the cell
    intro p cur hp
    have hcur := (CasLoop.State.run_invariant (I := EmptyOrInRange m M) hrun hempty
      fun p ema h => Or.inr (h.next hM (hlat p))).2 p cur hp
    exact hcur.exact hM (hlat p).2
  · rintro ⟨p, hp⟩
    rw [hlin.cell_eq]
    -- the last call to take effect has stored an average in range
    obtain ⟨before, last, rfl⟩ := List.eq_nil_or_concat' order |>.resolve_left
      (List.ne_nil_of_mem ((hlin.mem_iff p).mpr hp))
    unfold CasLoop.applyAll
    rw [List.foldl_append]
    exact (hempty.applyAll hM hlat before).next hM (hlat last)

/-- Two calls, with latencies of forty and of a hundred nanoseconds. Both read the empty cell, the
second stores first, and the exchange of the other fails once. -/
theorem latencyEma_range_two :
    ∃ st, (CasLoop.State.start ServerHealth.new.latencyEmaNs).run
        (fun slow : Bool => nextEma (if slow then 100 else 40))
        [⟨false, false⟩, ⟨true, false⟩, ⟨true, false⟩, ⟨false, false⟩, ⟨false, false⟩] = some st ∧
      (∃ order : List Bool, order.Nodup ∧ (∀ p, p ∈ order ↔ st.phase p = .done) ∧
        st.cell = (order.foldl (fun h slow => h.updateLatencyEma (if slow then 100 else 40))
          ServerHealth.new).latencyEmaNs) ∧
      (∀ p cur, st.phase p = .exchange cur → Exact (if p then 100 else 40) cur) ∧
      ((∃ p, st.phase p = .done) → InRange 40 100 st.cell) := by
  obtain ⟨st, hrun⟩ : ∃ st, (CasLoop.State.start ServerHealth.new.latencyEmaNs).run
      (fun slow : Bool => nextEma (if slow then 100 else 40))
      [⟨false, false⟩, ⟨true, false⟩, ⟨true, false⟩, ⟨false, false⟩, ⟨false, false⟩] = some st :=
    ⟨_, rfl⟩
  exact ⟨st, hrun, latencyEma_range (by decide) (by decide) hrun⟩

end ScalableBooking.LbProxy
