import ScalableBooking.RouterCore.Types
import ScalableBooking.Lib.Clamp

/-!
# Health of one backend

`lb-proxy/src/health.rs`. The atomics are 64-bit words and wrap, the deques of timestamps
are lists with the oldest entry first. A method that reads the clock takes the reading as an
argument, and one that prunes a window while it reads also returns the pruned value.
-/

namespace ScalableBooking.LbProxy

open RouterCore

/-- `ServerHealth`. -/
structure ServerHealth where
  inFlight : BitVec 64
  allRequests : List Instant
  fiveXx : List Instant
  latencyEmaNs : BitVec 64
  totalRequests : BitVec 64

/-- The value of `latency_ema_ns` before the first measurement. -/
def emptyEmaSentinel : BitVec 64 := 0

/-- Drop the entries that are older than the window, from the front. -/
def prune (entries : List Instant) (now : Instant) (window : Duration) : List Instant :=
  entries.dropWhile fun oldest => window < durationSince now oldest

/-- `u64::saturating_mul`. -/
def saturatingMul (x y : BitVec 64) : BitVec 64 :=
  if x.toNat * y.toNat < 2 ^ 64 then x * y else BitVec.allOnes 64

/-- `StatusCode::is_server_error`. -/
def isServerError (status : ℕ) : Bool := 500 ≤ status ∧ status < 600

namespace ServerHealth

/-- `ServerHealth::new`. -/
def new : ServerHealth where
  inFlight := 0
  allRequests := []
  fiveXx := []
  latencyEmaNs := emptyEmaSentinel
  totalRequests := 0

/-- A request is dispatched to this backend. -/
def begin (h : ServerHealth) : ServerHealth := { h with inFlight := h.inFlight + 1 }

/-- A response has been consumed, or the call has failed. -/
def decrement (h : ServerHealth) : ServerHealth := { h with inFlight := h.inFlight - 1 }

/-- `update_latency_ema`: nine tenths of the old value and a tenth of the new one, in whole
nanoseconds. The latency is cast to 64 bits. -/
def updateLatencyEma (h : ServerHealth) (latency : Duration) : ServerHealth :=
  -- the cast drops the upper half of the 128-bit nanoseconds
  let latNs := BitVec.ofNat 64 latency
  let next :=
    -- an average of zero reads as no average, and the next measurement replaces it
    if h.latencyEmaNs = emptyEmaSentinel then latNs
    else saturatingMul h.latencyEmaNs 9 / 10 + latNs / 10
  { h with latencyEmaNs := next }

/-- `record`: the outcome of a completed request. -/
def record (h : ServerHealth) (status : ℕ) (latency : Duration) (window : Duration)
    (now : Instant) : ServerHealth :=
  let h := { h with allRequests := prune h.allRequests now window ++ [now] }
  let h := if isServerError status then
      { h with fiveXx := prune h.fiveXx now window ++ [now] }
    else h
  let h := h.updateLatencyEma latency
  { h with totalRequests := h.totalRequests + 1 }

/-- `five_xx_count`. -/
def fiveXxCount (h : ServerHealth) (window : Duration) (now : Instant) : ℕ × ServerHealth :=
  let errs := prune h.fiveXx now window
  (errs.length, { h with fiveXx := errs })

/-- `snapshot`. The backlog behind a pooled client cannot be observed and is left at zero. -/
def snapshot (h : ServerHealth) (window : Duration) (now : Instant) :
    FastHealthSignals × ServerHealth :=
  let (count, h) := h.fiveXxCount window now
  ({ backlog := 0, error5xxCount := count, inFlight := h.inFlight.toNat }, h)

/-- `error_rate`, which reads the clock once for each window. -/
noncomputable def errorRate (h : ServerHealth) (window : Duration) (now now' : Instant) :
    ℝ × ServerHealth :=
  let all := prune h.allRequests now window
  let h := { h with allRequests := all }
  -- no request in the window, no error either
  if all.length = 0 then (0, h)
  else
    let (count, h) := h.fiveXxCount window now'
    (count / all.length, h)

/-- What `sync_scoreboard` predicts for this backend. -/
noncomputable def prediction (h : ServerHealth) (latencySlo window : Duration)
    (now now' : Instant) : ServerPrediction × ServerHealth :=
  if h.totalRequests = 0 then
    -- never measured, a neutral prediction
    ({ riskMean := 0, riskVariance := 0, confidence := 0, errorRate := 0 }, h)
  else
    let emaNs : ℝ := h.latencyEmaNs.toNat
    -- half the risk at the SLO, and more the slower the backend is
    let denom := max (latencySlo + emaNs) 1
    let risk := 1 - latencySlo / denom
    let (errorRate, h) := h.errorRate window now now'
    let confidence := min ((h.totalRequests.toNat : ℝ) / 10.0) 1
    ({ riskMean := clamp risk 0 1, riskVariance := 0, confidence := confidence,
       errorRate := errorRate }, h)

/-! ### Only `begin` and `decrement` touch the in-flight counter -/

@[simp] theorem inFlight_record (h : ServerHealth) (status : ℕ) (latency window : Duration)
    (now : Instant) : (h.record status latency window now).inFlight = h.inFlight := by
  unfold record updateLatencyEma
  cases isServerError status <;> rfl

@[simp] theorem inFlight_snapshot (h : ServerHealth) (window : Duration) (now : Instant) :
    (h.snapshot window now).2.inFlight = h.inFlight := rfl

@[simp] theorem inFlight_errorRate (h : ServerHealth) (window : Duration) (now now' : Instant) :
    (h.errorRate window now now').2.inFlight = h.inFlight := by
  unfold errorRate
  dsimp only
  split <;> rfl

@[simp] theorem inFlight_prediction (h : ServerHealth) (latencySlo window : Duration)
    (now now' : Instant) : (h.prediction latencySlo window now now').2.inFlight = h.inFlight := by
  unfold prediction
  split
  · rfl
  · exact inFlight_errorRate h window now now'

end ServerHealth

end ScalableBooking.LbProxy
