import ScalableBooking.LbProxy.Health
import ScalableBooking.Lib.SlidingWindow

/-!
# The sliding windows of one backend

`record`, `five_xx_count`, `snapshot` and `error_rate`, called one after another. The two deques
are pruned by whoever comes to them, `five_xx` on errors and reads only, so what they hold depends
on the whole history of calls. What is read off them does not: every count is the number of
recorded responses that are no older than the window (`windows_exact`).
-/

namespace ScalableBooking.LbProxy

open RouterCore SlidingWindow

/-! ### The window -/

/-- The entries that `prune` drops. -/
def ageing (window : Duration) : Ageing Instant Instant where
  stale now oldest := window < durationSince now oldest
  stale_of_le := by
    intro now now' oldest hle hstale
    have hage : durationSince now oldest ≤ durationSince now' oldest := Nat.sub_le_sub_right hle _
    exact decide_eq_true (Nat.lt_of_lt_of_le (of_decide_eq_true hstale) hage)

theorem prune_eq (entries : List Instant) (now : Instant) (window : Duration) :
    prune entries now window = (ageing window).prune now entries := rfl

/-- Entries with times that do not go back are in order of age. -/
theorem ordered_of_pairwise {window : Duration} {entries : List Instant}
    (h : entries.Pairwise (· ≤ ·)) : (ageing window).Ordered entries := by
  refine h.imp ?_
  intro τ τ' hle now hstale
  have hage : durationSince now τ' ≤ durationSince now τ := Nat.sub_le_sub_left hle _
  exact decide_eq_true (Nat.lt_of_lt_of_le (of_decide_eq_true hstale) hage)

/-- How many of the times are no longer ago than the window. -/
def inWindow (window : Duration) (now : Instant) (times : List Instant) : ℕ :=
  times.countP fun τ => durationSince now τ ≤ window

theorem inWindow_eq (window : Duration) (now : Instant) (times : List Instant) :
    inWindow window now times = times.countP fun τ => !(ageing window).stale now τ := by
  refine List.countP_congr ?_
  intro τ _
  simp [ageing]

/-- As time passes, times leave the window and none comes back. -/
theorem inWindow_anti {window : Duration} {now now' : Instant} (h : now ≤ now')
    (times : List Instant) : inWindow window now' times ≤ inWindow window now times := by
  refine List.countP_mono_left ?_
  intro τ _ hτ
  have hage : durationSince now τ ≤ durationSince now' τ := Nat.sub_le_sub_right h _
  exact decide_eq_true (Nat.le_trans hage (of_decide_eq_true hτ))

/-! ### Calls -/

/-- A call of one of the methods, with what it reads off the clock. -/
inductive WindowCall where
  | record (status : ℕ) (latency : Duration) (now : Instant)
  | fiveXxCount (now : Instant)
  | snapshot (now : Instant)
  | errorRate (now now' : Instant)

namespace WindowCall

/-- The readings of the clock, in their order. -/
def readings : WindowCall → List Instant
  | record _ _ now | fiveXxCount now | snapshot now => [now]
  | errorRate now now' => [now, now']

/-- The response that the call records. -/
def response? : WindowCall → Option (ℕ × Instant)
  | record status _ now => some (status, now)
  | _ => none

end WindowCall

/-- When responses have been recorded. -/
def requestTimes (calls : List WindowCall) : List Instant :=
  (calls.filterMap WindowCall.response?).map Prod.snd

/-- When server errors have been recorded. -/
def errorTimes (calls : List WindowCall) : List Instant :=
  ((calls.filterMap WindowCall.response?).filter fun response => isServerError response.1).map
    Prod.snd

theorem errorTimes_sublist (calls : List WindowCall) :
    (errorTimes calls).Sublist (requestTimes calls) :=
  List.filter_sublist.map Prod.snd

/-- A response is recorded at the reading of its call. -/
theorem requestTimes_sublist (calls : List WindowCall) :
    (requestTimes calls).Sublist (calls.flatMap WindowCall.readings) := by
  induction calls with
  | nil => exact List.Sublist.refl _
  | cons call calls ih =>
    rw [List.flatMap_cons]
    cases call with
    | record status latency now => exact ih.cons_cons now
    | _ => exact ih.trans (List.sublist_append_right _ _)

namespace ServerHealth

variable {window : Duration}

/-- One call. -/
noncomputable def call (window : Duration) (h : ServerHealth) : WindowCall → ServerHealth
  | .record status latency now => h.record status latency window now
  | .fiveXxCount now => (h.fiveXxCount window now).2
  | .snapshot now => (h.snapshot window now).2
  | .errorRate now now' => (h.errorRate window now now').2

/-- One call after another. -/
noncomputable def callAll (window : Duration) (h : ServerHealth) (calls : List WindowCall) :
    ServerHealth :=
  calls.foldl (call window) h

/-- The deques hold what has been recorded, without entries that were too old at the time
`now`. -/
structure Keeps (window : Duration) (now : Instant) (calls : List WindowCall) (h : ServerHealth) :
    Prop where
  requests : (ageing window).Keeps now (requestTimes calls) h.allRequests
  errors : (ageing window).Keeps now (errorTimes calls) h.fiveXx

namespace Keeps

variable {now now' : Instant} {calls : List WindowCall} {h : ServerHealth}

theorem later (hk : h.Keeps window now calls) (hle : now ≤ now') : h.Keeps window now' calls :=
  ⟨hk.requests.later hle, hk.errors.later hle⟩

/-- `record` pushes into `all_requests`, and a server error into `five_xx`, too. -/
theorem record (hk : h.Keeps window now calls) (status : ℕ) (latency : Duration) :
    (h.record status latency window now).Keeps window now
      (calls ++ [.record status latency now]) := by
  have hrequests : requestTimes (calls ++ [.record status latency now]) =
      requestTimes calls ++ [now] := by
    simp [requestTimes, WindowCall.response?]
  -- the second list grows with the errors only
  cases herror : isServerError status with
  | true =>
    have herrors : errorTimes (calls ++ [.record status latency now]) =
        errorTimes calls ++ [now] := by
      simp [errorTimes, WindowCall.response?, herror]
    refine ⟨?_, ?_⟩
    · rw [hrequests]
      simpa [ServerHealth.record, herror, updateLatencyEma, prune_eq]
        using hk.requests.prune.push now
    · rw [herrors]
      simpa [ServerHealth.record, herror, updateLatencyEma, prune_eq] using hk.errors.prune.push now
  | false =>
    have herrors : errorTimes (calls ++ [.record status latency now]) = errorTimes calls := by
      simp [errorTimes, WindowCall.response?, herror]
    refine ⟨?_, ?_⟩
    · rw [hrequests]
      simpa [ServerHealth.record, herror, updateLatencyEma, prune_eq]
        using hk.requests.prune.push now
    · rw [herrors]
      simpa [ServerHealth.record, herror, updateLatencyEma, prune_eq] using hk.errors

/-- A call that records nothing. -/
theorem reads (hk : h.Keeps window now calls) {c : WindowCall} (hc : c.response? = none) :
    h.Keeps window now (calls ++ [c]) := by
  have hrequests : requestTimes (calls ++ [c]) = requestTimes calls := by
    simp [requestTimes, hc]
  have herrors : errorTimes (calls ++ [c]) = errorTimes calls := by
    simp [errorTimes, hc]
  exact ⟨by rw [hrequests]; exact hk.requests, by rw [herrors]; exact hk.errors⟩

theorem fiveXxCount (hk : h.Keeps window now calls) :
    (h.fiveXxCount window now).2.Keeps window now calls :=
  ⟨hk.requests, hk.errors.prune⟩

theorem errorRate (hk : h.Keeps window now calls) (hle : now ≤ now') :
    (h.errorRate window now now').2.Keeps window now' calls := by
  have hpruned : ServerHealth.Keeps window now calls
      { h with allRequests := prune h.allRequests now window } :=
    ⟨hk.requests.prune, hk.errors⟩
  unfold ServerHealth.errorRate
  dsimp only
  split
  · exact hpruned.later hle
  · exact (hpruned.later hle).fiveXxCount

/-- Every call keeps it, up to the time it has read last. -/
theorem call (hk : h.Keeps window now calls) {c : WindowCall} (hle : ∀ r ∈ c.readings, now ≤ r)
    (hc : c.readings.Pairwise (· ≤ ·)) (hle' : ∀ r ∈ c.readings, r ≤ now') :
    (h.call window c).Keeps window now' (calls ++ [c]) := by
  cases c with
  | record status latency r =>
    exact ((hk.later (hle r List.mem_cons_self)).record status latency).later
      (hle' r List.mem_cons_self)
  | fiveXxCount r =>
    exact (((hk.reads rfl).later (hle r List.mem_cons_self)).fiveXxCount).later
      (hle' r List.mem_cons_self)
  | snapshot r =>
    exact (((hk.reads rfl).later (hle r List.mem_cons_self)).fiveXxCount).later
      (hle' r List.mem_cons_self)
  | errorRate r r' =>
    have hr : r ≤ r' := List.rel_of_pairwise_cons hc List.mem_cons_self
    exact (((hk.reads rfl).later (hle r List.mem_cons_self)).errorRate hr).later
      (hle' r' (List.mem_cons_of_mem _ List.mem_cons_self))

/-- And so does every sequence of calls, with a clock that does not go back. -/
theorem callAll (hclock : (calls.flatMap WindowCall.readings).Pairwise (· ≤ ·))
    (hle : ∀ r ∈ calls.flatMap WindowCall.readings, r ≤ now) :
    (new.callAll window calls).Keeps window now calls := by
  induction calls using List.reverseRecOn generalizing now with
  | nil => exact ⟨.refl _ _ _, .refl _ _ _⟩
  | append_singleton calls c ih =>
    rw [List.flatMap_append, List.flatMap_singleton] at hclock hle
    obtain ⟨hcalls, hc, hbefore⟩ := List.pairwise_append.mp hclock
    rw [ServerHealth.callAll, List.foldl_append]
    -- the first reading of the last call comes after all the others
    obtain ⟨first, rest, hreadings⟩ : ∃ first rest, c.readings = first :: rest := by
      cases c <;> exact ⟨_, _, rfl⟩
    have hfirst : first ∈ c.readings := by
      rw [hreadings]
      exact List.mem_cons_self
    have hkeeps : (new.callAll window calls).Keeps window first calls :=
      ih hcalls fun r hr => hbefore r hr first hfirst
    refine hkeeps.call ?_ hc ?_
    · intro r hr
      rw [hreadings] at hr hc
      obtain rfl | hr := List.mem_cons.mp hr
      · exact Nat.le_refl _
      · exact List.rel_of_pairwise_cons hc hr
    · intro r hr
      exact hle r (List.mem_append_right _ hr)

end Keeps

/-! ### What is read -/

/-- After any sequence of calls with a clock that does not go back, every count is the number of
recorded responses that are no older than the window. `error_rate` reads the clock twice, and its
two counts are those of the two readings. -/
theorem windows_exact {calls : List WindowCall} {now now' : Instant}
    (hclock : (calls.flatMap WindowCall.readings ++ [now, now']).Pairwise (· ≤ ·)) :
    let h := new.callAll window calls
    (h.fiveXxCount window now).1 = inWindow window now (errorTimes calls) ∧
    (h.snapshot window now).1.error5xxCount = inWindow window now (errorTimes calls) ∧
    (h.errorRate window now now').1 =
      (if inWindow window now (requestTimes calls) = 0 then (0 : ℝ)
      else inWindow window now' (errorTimes calls) / inWindow window now (requestTimes calls)) ∧
    (h.errorRate window now now').1 ∈ Set.Icc 0 1 := by
  intro h
  obtain ⟨hcalls, htwo, hbefore⟩ := List.pairwise_append.mp hclock
  have hle : now ≤ now' := List.rel_of_pairwise_cons htwo List.mem_cons_self
  have hrequests : (ageing window).Ordered (requestTimes calls) :=
    ordered_of_pairwise (hcalls.sublist (requestTimes_sublist calls))
  have herrors := hrequests.sublist (errorTimes_sublist calls)
  have hk : h.Keeps window now calls :=
    .callAll hcalls fun r hr => hbefore r hr now List.mem_cons_self
  have hcount {t : Instant} (ht : now ≤ t) :
      (prune h.fiveXx t window).length = inWindow window t (errorTimes calls) := by
    rw [inWindow_eq, prune_eq]
    exact (hk.later ht).errors.length_prune herrors
  have htotal : (prune h.allRequests now window).length =
      inWindow window now (requestTimes calls) := by
    rw [inWindow_eq, prune_eq]
    exact hk.requests.length_prune hrequests
  have hrate : (h.errorRate window now now').1 =
      if inWindow window now (requestTimes calls) = 0 then (0 : ℝ)
      else inWindow window now' (errorTimes calls) / inWindow window now (requestTimes calls) := by
    unfold errorRate
    simp only [htotal]
    split
    · rfl
    · simp only [fiveXxCount, hcount hle]
  refine ⟨hcount (Nat.le_refl _), hcount (Nat.le_refl _), hrate, ?_⟩
  rw [hrate]
  split
  · exact ⟨le_refl 0, zero_le_one⟩
  · -- the errors counted at the second reading are among the requests counted at the first
    have hfew : inWindow window now' (errorTimes calls) ≤
        inWindow window now (requestTimes calls) :=
      calc inWindow window now' (errorTimes calls)
          ≤ inWindow window now (errorTimes calls) := inWindow_anti hle _
        _ ≤ inWindow window now (requestTimes calls) :=
          (errorTimes_sublist calls).countP_le
    exact ⟨by positivity, div_le_one_of_le₀ (by exact_mod_cast hfew) (by positivity)⟩

/-- A server error and a response, with a look at the rate between them. -/
def twoResponses : List WindowCall :=
  [.record 503 0 1, .errorRate 4 4, .record 200 0 8]

/-- The error counts up to the boundary of a window of ten nanoseconds. -/
theorem windows_exact_twoResponses :
    ((new.callAll 10 twoResponses).fiveXxCount 10 10).1 = 1 ∧
      ((new.callAll 10 twoResponses).errorRate 10 10 11).1 = 1 / 2 := by
  have hclock : (twoResponses.flatMap WindowCall.readings ++ [10, 11]).Pairwise (· ≤ ·) := by
    decide
  obtain ⟨hcount, -, hrate, -⟩ := @windows_exact 10 twoResponses 10 11 hclock
  have herrors : inWindow 10 10 (errorTimes twoResponses) = 1 := by decide
  have herrors' : inWindow 10 11 (errorTimes twoResponses) = 1 := by decide
  have hrequests : inWindow 10 10 (requestTimes twoResponses) = 2 := by decide
  rw [herrors] at hcount
  rw [herrors', hrequests] at hrate
  exact ⟨hcount, by simpa using hrate⟩

end ServerHealth

end ScalableBooking.LbProxy
