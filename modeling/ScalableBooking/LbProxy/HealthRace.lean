import ScalableBooking.LbProxy.Window

/-!
# The rate of server errors under concurrent calls

`record` and `error_rate` run on several threads at once. Each takes the locks of the two deques
one after the other, and gives the first back before it takes the second. So `error_rate` counts
requests at one moment and server errors at a later one. In between, a whole `record` can come and
go, and its error is counted while its request is not (`rate_above_one`).

There is a second way. A `record` reads the clock before it has a lock, so entries can come into a
deque in another order than their times, and `prune`, which stops at the first young entry, leaves
old ones behind it. If that happens in `five_xx` only, an error is counted after its request has
gone.

Without the two the rate is a fraction in every run (`rate_mem_of_run`): an error that is counted
has its request among those counted before.
-/

namespace ScalableBooking.LbProxy

open RouterCore SlidingWindow

/-! ### The steps -/

namespace ServerHealth

/-- `record`, the first lock. -/
def pushRequest (h : ServerHealth) (now : Instant) (window : Duration) : ServerHealth :=
  { h with allRequests := prune h.allRequests now window ++ [now] }

/-- `record`, the second lock. -/
def pushError (h : ServerHealth) (now : Instant) (window : Duration) : ServerHealth :=
  { h with fiveXx := prune h.fiveXx now window ++ [now] }

/-- `record`, the atomics. -/
def finish (h : ServerHealth) (latency : Duration) : ServerHealth :=
  let h := h.updateLatencyEma latency
  { h with totalRequests := h.totalRequests + 1 }

/-- `error_rate`, the first lock. The second is the one of `five_xx_count`. -/
def countRequests (h : ServerHealth) (now : Instant) (window : Duration) : ℕ × ServerHealth :=
  let all := prune h.allRequests now window
  (all.length, { h with allRequests := all })

/-- Undisturbed, the steps of `record` are the whole. -/
theorem record_eq (h : ServerHealth) (status : ℕ) (latency window : Duration) (now : Instant) :
    h.record status latency window now =
      (if isServerError status then (h.pushRequest now window).pushError now window
      else h.pushRequest now window).finish latency := by
  unfold record
  cases isServerError status <;> rfl

end ServerHealth

namespace HealthRace

/-- A call on a thread of its own. -/
inductive HealthCall where
  | record (status : ℕ) (latency : Duration)
  | errorRate
deriving DecidableEq, Repr

/-- Where a call stands: before its reading of the clock, before one of its locks, or at its
end. -/
inductive Phase where
  | record (status : ℕ) (latency : Duration)
  | pushRequest (status : ℕ) (latency : Duration) (now : Instant)
  | pushError (latency : Duration) (now : Instant)
  | finish (latency : Duration)
  | recorded
  | countRequests
  | countErrors (total : ℕ)
  | rated (rate : ℚ)
deriving DecidableEq

def HealthCall.begin : HealthCall → Phase
  | record status latency => .record status latency
  | errorRate => .countRequests

/-- The threads, and the `ServerHealth` they share. -/
structure State (P : Type) where
  health : ServerHealth
  phase : P → Phase
  clock : Instant

/-- Time passes, or a call makes its next step. -/
inductive Event (P : Type) where
  | tick (d : Duration)
  | run (p : P)

namespace State

variable {P : Type} [DecidableEq P]

omit [DecidableEq P] in
/-- No call has begun. -/
def start (calls : P → HealthCall) (clock : Instant) : State P where
  health := .new
  phase p := (calls p).begin
  clock

/-- The call `p` leaves `health` behind and goes on at `ph`. -/
def goto (s : State P) (p : P) (health : ServerHealth) (ph : Phase) : State P :=
  { s with health, phase := Function.update s.phase p ph }

/-- One step of a call. Under the locks `error_rate` reads the clock itself. -/
def stepCall (window : Duration) (s : State P) (p : P) : Phase → Option (State P)
  | .record status latency => some (s.goto p s.health (.pushRequest status latency s.clock))
  | .pushRequest status latency now =>
      some (s.goto p (s.health.pushRequest now window)
        (if isServerError status then .pushError latency now else .finish latency))
  | .pushError latency now => some (s.goto p (s.health.pushError now window) (.finish latency))
  | .finish latency => some (s.goto p (s.health.finish latency) .recorded)
  | .countRequests =>
      let (total, health) := s.health.countRequests s.clock window
      some (s.goto p health (if total = 0 then .rated 0 else .countErrors total))
  | .countErrors total =>
      let (count, health) := s.health.fiveXxCount window s.clock
      some (s.goto p health (.rated (count / total)))
  | .recorded | .rated _ => none

/-- One step, if the event can happen. -/
def step (window : Duration) (s : State P) : Event P → Option (State P)
  | .tick d => some { s with clock := s.clock + d }
  | .run p => s.stepCall window p (s.phase p)

/-- A run: its events one after another. -/
def run (window : Duration) (s : State P) : List (Event P) → Option (State P)
  | [] => some s
  | e :: es => (s.step window e).bind fun s' => s'.run window es

/-! ### Errors out of turn -/

/-- The call `q` of `error_rate` stands between its two counts. -/
def Counting (s : State P) (q : P) : Prop := ∃ total, s.phase q = .countErrors total

/-- Which calls of `record` are late for which calls of `error_rate`: they have pushed their
response while the other stood between its counts. -/
def lateAfter (s : State P) (late : P → P → Prop) (e : Event P) : P → P → Prop := fun q p =>
  late q p ∨ e = .run p ∧ (∃ status latency now, s.phase p = .pushRequest status latency now) ∧
    s.Counting q

/-- The step pushes no server error out of turn. An error is out of turn behind a younger one, and
before the count of a call it is late for. -/
def InTurn (s : State P) (late : P → P → Prop) (e : Event P) : Prop :=
  ∀ p latency now, e = .run p → s.phase p = .pushError latency now →
    (∀ τ ∈ s.health.fiveXx, τ ≤ now) ∧ ∀ q, s.Counting q → ¬late q p

/-- No step of the run does. -/
def AllInTurn (window : Duration) (late : P → P → Prop) (s : State P) : List (Event P) → Prop
  | [] => True
  | e :: es => s.InTurn late e ∧
      ∀ s', s.step window e = some s' → s'.AllInTurn window (s.lateAfter late e) es

theorem AllInTurn.cons {window : Duration} {late : P → P → Prop} {s s₁ : State P} {e : Event P}
    {es : List (Event P)} (h : s.InTurn late e)
    (hs : s.step window e = some s₁) (hrest : s₁.AllInTurn window (s.lateAfter late e) es) :
    s.AllInTurn window late (e :: es) := by
  refine ⟨h, ?_⟩
  intro s' hs'
  rw [hs] at hs'
  cases hs'
  exact hrest

end State

/-! ### The invariant -/

section Invariant

variable {P : Type} [DecidableEq P] {window : Duration} {late late' : P → P → Prop}
  {s s' : State P} {all all' five five' : List (P × Instant)} {p q : P}

/-- The last lock of a call of `record` is behind it. -/
def Closing : Phase → Prop
  | .finish _ | .recorded => True
  | _ => False

/-- The reading of the clock that a call of `record` carries. -/
def reading? : Phase → Option Instant
  | .pushRequest _ _ now | .pushError _ now => some now
  | _ => none

/-- An entry, given with the call that made it, is not too old. -/
def Fresh (window : Duration) (s : State P) (x : P × Instant) : Prop :=
  (ageing window).stale s.clock x.2 = false

/-- Every error that the call `q` can still count, and is not late for it, has been pushed by one
of the calls `counted`. -/
structure Covers (window : Duration) (late : P → P → Prop) (s : State P)
    (five : List (P × Instant)) (q : P) (counted : List P) : Prop where
  pushed : ∀ x ∈ five, Fresh window s x → x.1 ∈ counted
  pending : ∀ p latency now, s.phase p = .pushError latency now → Fresh window s (p, now) →
    late q p ∨ p ∈ counted

/-- What holds all along a run, if the entries of the deques are `all` and `five`, with the calls
that made them: an error that is not too old has its request in the other deque, and is covered by
every count of requests that is still in use. -/
structure Matched (window : Duration) (late : P → P → Prop) (s : State P)
    (all five : List (P × Instant)) : Prop where
  requests : s.health.allRequests = all.map Prod.snd
  errors : s.health.fiveXx = five.map Prod.snd
  sorted : s.health.fiveXx.Pairwise (· ≤ ·)
  nodup : (five.map Prod.fst).Nodup
  read : ∀ p now, reading? (s.phase p) = some now → now ≤ s.clock
  closing : ∀ x ∈ five, Closing (s.phase x.1)
  pending : ∀ p latency now, s.phase p = .pushError latency now → Fresh window s (p, now) →
    (p, now) ∈ all
  twin : ∀ x ∈ five, Fresh window s x → x ∈ all
  counting : ∀ q total, s.phase q = .countErrors total → 0 < total ∧
    ∃ counted : List P, counted.length = total ∧ Covers window late s five q counted
  rated : ∀ q rate, s.phase q = .rated rate → rate ∈ Set.Icc 0 1

omit [DecidableEq P] in
/-- What is not too old has not been at an earlier time. -/
theorem Fresh.earlier {x : P × Instant} (h : Fresh window s x) {now : Instant}
    (hle : now ≤ s.clock) : (ageing window).stale now x.2 = false := by
  by_contra hstale
  rw [Bool.not_eq_false] at hstale
  have hlater := (ageing window).stale_of_le hle hstale
  rw [show (ageing window).stale s.clock x.2 = false from h] at hlater
  cases hlater

/-- Where a call stands after a step of the call `p`. -/
theorem State.phase_goto {health : ServerHealth} {ph ph' : Phase}
    (hq : (s.goto p health ph).phase q = ph') : q = p ∧ ph = ph' ∨ q ≠ p ∧ s.phase q = ph' := by
  by_cases hqp : q = p
  · subst hqp
    have hself : (s.goto q health ph).phase q = ph := Function.update_self _ _ _
    exact .inl ⟨rfl, hself.symm.trans hq⟩
  · have hother : (s.goto p health ph).phase q = s.phase q := Function.update_of_ne hqp _ _
    exact .inr ⟨hqp, hother.symm.trans hq⟩

namespace Covers

variable {counted : List P}

omit [DecidableEq P] in
theorem mono (h : Covers window late s five q counted) (hlate : ∀ q p, late q p → late' q p) :
    Covers window late' s five q counted where
  pushed := h.pushed
  pending p latency now hp hfresh := (h.pending p latency now hp hfresh).imp_left (hlate q p)

/-- The call `p` makes a step, and pushes no error that is late for `q`. -/
theorem move (h : Covers window late s five q counted) {health : ServerHealth} {ph : Phase}
    (hlate : ∀ q p, late q p → late' q p)
    (hfive : ∀ x ∈ five', x ∈ five ∨
      x.1 = p ∧ (∃ latency, s.phase p = .pushError latency x.2) ∧ ¬late q p)
    (hpending : ∀ latency now, ph = .pushError latency now → late' q p) :
    Covers window late' (s.goto p health ph) five' q counted := by
  refine ⟨?_, ?_⟩
  · intro x hx hfresh
    obtain hx | ⟨rfl, ⟨latency, hp⟩, hnot⟩ := hfive x hx
    · exact h.pushed x hx hfresh
    · exact (h.pending _ latency _ hp hfresh).resolve_left hnot
  · intro r latency now hr hfresh
    obtain ⟨rfl, hph⟩ | ⟨-, hr⟩ := State.phase_goto hr
    · exact .inl (hpending latency now hph)
    · exact (h.pending r latency now hr hfresh).imp_left (hlate q r)

end Covers

namespace Matched

omit [DecidableEq P] in
theorem start (window : Duration) (calls : P → HealthCall) (clock : Instant) :
    Matched window (fun _ _ => False) (State.start calls clock) [] [] := by
  have hphase (p : P) : (∃ status latency, (State.start calls clock).phase p =
      .record status latency) ∨ (State.start calls clock).phase p = .countRequests := by
    change (∃ status latency, (calls p).begin = .record status latency) ∨
      (calls p).begin = .countRequests
    cases calls p with
    | record status latency => exact .inl ⟨status, latency, rfl⟩
    | errorRate => exact .inr rfl
  refine ⟨rfl, rfl, .nil, .nil, ?_, by simp, ?_, by simp, ?_, ?_⟩
  · intro p now hread
    obtain ⟨_, _, hp⟩ | hp := hphase p <;> simp [hp, reading?] at hread
  · intro p latency now hpending
    obtain ⟨_, _, hp⟩ | hp := hphase p <;> simp [hp] at hpending
  · intro q total hcounting
    obtain ⟨_, _, hp⟩ | hp := hphase q <;> simp [hp] at hcounting
  · intro q rate hrated
    obtain ⟨_, _, hp⟩ | hp := hphase q <;> simp [hp] at hrated

omit [DecidableEq P] in
theorem tick (h : Matched window late s all five) (d : Duration) :
    Matched window late { s with clock := s.clock + d } all five := by
  have hfresh {x : P × Instant} (hx : Fresh window { s with clock := s.clock + d } x) :
      Fresh window s x :=
    hx.earlier (Nat.le_add_right _ _)
  refine { h with read := ?_, pending := ?_, twin := ?_, counting := ?_ }
  · intro p now hread
    exact Nat.le_trans (h.read p now hread) (Nat.le_add_right _ _)
  · intro p latency now hp hx
    exact h.pending p latency now hp (hfresh hx)
  · intro x hx hx'
    exact h.twin x hx (hfresh hx')
  · intro q total hq
    obtain ⟨hpos, counted, hlength, hcovers⟩ := h.counting q total hq
    refine ⟨hpos, counted, hlength, ?_, ?_⟩
    · intro x hx hx'
      exact hcovers.pushed x hx (hfresh hx')
    · intro p latency now hp hx
      exact hcovers.pending p latency now hp (hfresh hx)

/-- The call `p` makes a step: what has to be shown of the deques and of its new phase. -/
theorem move (h : Matched window late s all five) {health : ServerHealth} {ph : Phase}
    (hlate : ∀ q p, late q p → late' q p)
    (hrequests : health.allRequests = all'.map Prod.snd)
    (herrors : health.fiveXx = five'.map Prod.snd)
    (hsorted : health.fiveXx.Pairwise (· ≤ ·)) (hnodup : (five'.map Prod.fst).Nodup)
    (hall : ∀ x ∈ all, Fresh window s x → x ∈ all')
    (hfive : ∀ x ∈ five', x ∈ five ∨ x.1 = p ∧ Closing ph ∧
      (∃ latency, s.phase p = .pushError latency x.2) ∧ ∀ q, s.Counting q → ¬late q p)
    (hread : ∀ now, reading? ph = some now → now ≤ s.clock)
    (hclosing : Closing (s.phase p) → Closing ph)
    (hpending : ∀ latency now, ph = .pushError latency now →
      (p, now) ∈ all' ∧ ∀ q, s.Counting q → late' q p)
    (hcounting : ∀ total, ph = .countErrors total → 0 < total ∧ ∃ counted : List P,
      counted.length = total ∧ Covers window late' s five' p counted)
    (hrated : ∀ rate, ph = .rated rate → rate ∈ Set.Icc 0 1) :
    Matched window late' (s.goto p health ph) all' five' := by
  refine ⟨hrequests, herrors, hsorted, hnodup, ?_, ?_, ?_, ?_, ?_, ?_⟩
  · -- the readings: no clock goes back
    intro q now hq
    obtain ⟨-, hph⟩ | ⟨-, hph⟩ := State.phase_goto (rfl : (s.goto p health ph).phase q = _)
    · rw [← hph] at hq
      exact hread now hq
    · rw [← hph] at hq
      exact h.read q now hq
  · -- the errors: whoever has pushed one is past its second lock
    intro x hx
    obtain ⟨hxp, hph⟩ | ⟨hxp, hph⟩ :=
      State.phase_goto (rfl : (s.goto p health ph).phase x.1 = _)
    · rw [← hph]
      obtain hx | ⟨-, hclosed, -⟩ := hfive x hx
      · exact hclosing (hxp ▸ h.closing x hx)
      · exact hclosed
    · rw [← hph]
      obtain hx | ⟨hx, -⟩ := hfive x hx
      · exact h.closing x hx
      · exact absurd hx hxp
  · -- an error that is still to be pushed has its request in the first deque
    intro q latency now hq hfresh
    obtain ⟨rfl, hph⟩ | ⟨-, hq⟩ := State.phase_goto hq
    · exact (hpending latency now hph).1
    · exact hall _ (h.pending q latency now hq hfresh) hfresh
  · -- and so has one that has been pushed, in this step or before
    intro x hx hfresh
    obtain hx | ⟨rfl, -, ⟨latency, hp⟩, -⟩ := hfive x hx
    · exact hall x (h.twin x hx hfresh) hfresh
    · exact hall x (h.pending _ latency _ hp hfresh) hfresh
  · intro q total hq
    obtain ⟨rfl, hph⟩ | ⟨-, hq⟩ := State.phase_goto hq
    · -- its own count begins with this step
      obtain ⟨hpos, counted, hlength, hcovers⟩ := hcounting total hph
      refine ⟨hpos, counted, hlength, hcovers.pushed, ?_⟩
      intro r latency now hr hfresh
      obtain ⟨rfl, hpush⟩ | ⟨-, hr⟩ := State.phase_goto hr
      · cases hph.symm.trans hpush
      · exact hcovers.pending r latency now hr hfresh
    · -- a count that is under way covers the new error, or the error comes late for it
      obtain ⟨hpos, counted, hlength, hcovers⟩ := h.counting q total hq
      refine ⟨hpos, counted, hlength, hcovers.move hlate ?_ ?_⟩
      · intro x hx
        exact (hfive x hx).imp_right fun ⟨hxp, _, hpush, hnot⟩ => ⟨hxp, hpush, hnot q ⟨total, hq⟩⟩
      · intro latency now hph
        exact (hpending latency now hph).2 q ⟨total, hq⟩
  · intro q rate hq
    obtain ⟨rfl, hph⟩ | ⟨-, hq⟩ := State.phase_goto hq
    · exact hrated rate hph
    · exact h.rated q rate hq

/-- A step that leaves the deques alone. -/
theorem move_idle (h : Matched window late s all five) {health : ServerHealth} {ph : Phase}
    (hlate : ∀ q p, late q p → late' q p)
    (hrequests : health.allRequests = s.health.allRequests)
    (herrors : health.fiveXx = s.health.fiveXx)
    (hread : ∀ now, reading? ph = some now → now ≤ s.clock)
    (hclosing : Closing (s.phase p) → Closing ph)
    (hpending : ∀ latency now, ph ≠ .pushError latency now)
    (hcounting : ∀ total, ph ≠ .countErrors total) (hrated : ∀ rate, ph ≠ .rated rate) :
    Matched window late' (s.goto p health ph) all five :=
  h.move hlate (hrequests.trans h.requests) (herrors.trans h.errors) (herrors ▸ h.sorted) h.nodup
    (fun _ hx _ => hx) (fun _ hx => .inl hx) hread hclosing
    (fun latency now hph => absurd hph (hpending latency now))
    (fun total hph => absurd hph (hcounting total)) (fun rate hph => absurd hph (hrated rate))

/-- The first lock of `record`. -/
theorem pushRequest (h : Matched window late s all five) {status : ℕ} {latency : Duration}
    {now : Instant} (hp : s.phase p = .pushRequest status latency now)
    (hlate : ∀ q p, late q p → late' q p) (hlate' : ∀ q, s.Counting q → late' q p) :
    Matched window late' (s.goto p (s.health.pushRequest now window)
        (if isServerError status then .pushError latency now else .finish latency))
      (((ageing window).comap Prod.snd).prune now all ++ [(p, now)]) five := by
  have hnow : now ≤ s.clock := h.read p now (by rw [hp]; rfl)
  -- the error has the time of the request it belongs to
  have hph (latency' now') (heq : (if isServerError status then Phase.pushError latency now
      else .finish latency) = .pushError latency' now') : now' = now := by
    split at heq
    · cases heq
      rfl
    · cases heq
  refine h.move hlate ?_ h.errors h.sorted h.nodup ?_ (fun _ hx => .inl hx) ?_ ?_ ?_ ?_ ?_
  · rw [ServerHealth.pushRequest, prune_eq, h.requests, Ageing.prune_map]
    simp
  · intro x hx hfresh
    exact List.mem_append_left _ (Ageing.mem_prune hx (hfresh.earlier hnow))
  · intro now' hread
    split at hread
    · cases hread
      exact hnow
    · cases hread
  · rw [hp]
    exact False.elim
  · intro latency' now' heq
    rw [hph latency' now' heq]
    exact ⟨List.mem_append_right _ List.mem_cons_self, hlate'⟩
  · intro total heq
    split at heq <;> cases heq
  · intro rate heq
    split at heq <;> cases heq

/-- The second lock of `record`, in its turn. -/
theorem pushError (h : Matched window late s all five) {latency : Duration} {now : Instant}
    (hp : s.phase p = .pushError latency now) (hlate : ∀ q p, late q p → late' q p)
    (hturn : (∀ τ ∈ s.health.fiveXx, τ ≤ now) ∧ ∀ q, s.Counting q → ¬late q p) :
    Matched window late' (s.goto p (s.health.pushError now window) (.finish latency)) all
      (((ageing window).comap Prod.snd).prune now five ++ [(p, now)]) := by
  have hsub : (prune s.health.fiveXx now window).Sublist s.health.fiveXx := by
    rw [prune_eq]
    exact Ageing.prune_sublist now _
  have hsub' : (((ageing window).comap Prod.snd).prune now five).Sublist five :=
    Ageing.prune_sublist now five
  refine h.move hlate h.requests ?_ ?_ ?_ (fun _ hx _ => hx) ?_ (by simp [reading?]) ?_ (by simp)
    (by simp) (by simp)
  · rw [ServerHealth.pushError, prune_eq, h.errors, Ageing.prune_map]
    simp
  · refine List.pairwise_append.mpr ⟨h.sorted.sublist hsub, List.pairwise_singleton _ _, ?_⟩
    intro τ hτ τ' hτ'
    rw [List.mem_singleton.mp hτ']
    exact hturn.1 τ (hsub.subset hτ)
  · rw [List.map_append]
    refine List.nodup_append.mpr
      ⟨h.nodup.sublist (hsub'.map Prod.fst), List.nodup_singleton p, ?_⟩
    -- the call has not been here before
    rintro q hq r hr rfl
    obtain ⟨x, hx, hxq⟩ := List.mem_map.mp hq
    have hclosing := h.closing x (hsub'.subset hx)
    rw [hxq, List.mem_singleton.mp hr, hp] at hclosing
    exact hclosing
  · intro x hx
    obtain hx | hx := List.mem_append.mp hx
    · exact .inl (hsub'.subset hx)
    · rw [List.mem_singleton.mp hx]
      exact .inr ⟨rfl, trivial, ⟨latency, hp⟩, hturn.2⟩
  · intro _
    trivial

/-- The first lock of `error_rate`: the requests of all errors there are now are counted. -/
theorem countRequests (h : Matched window late s all five) (hp : s.phase p = .countRequests)
    (hlate : ∀ q p, late q p → late' q p) :
    Matched window late' (s.goto p (s.health.countRequests s.clock window).2
        (if (s.health.countRequests s.clock window).1 = 0 then .rated 0
        else .countErrors (s.health.countRequests s.clock window).1))
      (((ageing window).comap Prod.snd).prune s.clock all) five := by
  have hrequests : prune s.health.allRequests s.clock window =
      (((ageing window).comap Prod.snd).prune s.clock all).map Prod.snd := by
    rw [prune_eq, h.requests, Ageing.prune_map]
  -- what is still fresh survives the pruning
  have hall (x : P × Instant) (hx : x ∈ all) (hfresh : Fresh window s x) :
      x ∈ ((ageing window).comap Prod.snd).prune s.clock all := Ageing.mem_prune hx hfresh
  refine h.move hlate hrequests h.errors h.sorted h.nodup hall (fun _ hx => .inl hx) ?_ ?_ ?_ ?_ ?_
  · intro now hread
    split at hread <;> cases hread
  · rw [hp]
    exact False.elim
  · intro latency now heq
    split at heq <;> cases heq
  · intro total heq
    split at heq
    · cases heq
    · rename_i hpos
      cases heq
      refine ⟨Nat.pos_of_ne_zero hpos,
        (((ageing window).comap Prod.snd).prune s.clock all).map Prod.fst, ?_, ?_, ?_⟩
      · rw [ServerHealth.countRequests, hrequests, List.length_map, List.length_map]
      · intro x hx hfresh
        exact List.mem_map_of_mem (hall x (h.twin x hx hfresh) hfresh)
      · intro q latency now hq hfresh
        exact .inr (List.mem_map.mpr
          ⟨(q, now), hall _ (h.pending q latency now hq hfresh) hfresh, rfl⟩)
  · intro rate heq
    split at heq
    · cases heq
      exact ⟨le_refl 0, zero_le_one⟩
    · cases heq

/-- The second lock of `error_rate`: no more errors are counted than requests have been. -/
theorem countErrors (h : Matched window late s all five) {total : ℕ}
    (hp : s.phase p = .countErrors total) (hlate : ∀ q p, late q p → late' q p) :
    Matched window late' (s.goto p (s.health.fiveXxCount window s.clock).2
        (.rated ((s.health.fiveXxCount window s.clock).1 / total)))
      all (((ageing window).comap Prod.snd).prune s.clock five) := by
  have herrors : prune s.health.fiveXx s.clock window =
      (((ageing window).comap Prod.snd).prune s.clock five).map Prod.snd := by
    rw [prune_eq, h.errors, Ageing.prune_map]
  have hsub : (((ageing window).comap Prod.snd).prune s.clock five).Sublist five :=
    Ageing.prune_sublist s.clock five
  refine h.move hlate h.requests herrors ?_ ?_ (fun _ hx _ => hx)
    (fun _ hx => .inl (hsub.subset hx)) (by simp [reading?]) ?_ (by simp) (by simp) ?_
  · change (prune s.health.fiveXx s.clock window).Pairwise (· ≤ ·)
    rw [prune_eq]
    exact h.sorted.sublist (Ageing.prune_sublist s.clock _)
  · exact h.nodup.sublist (hsub.map Prod.fst)
  · rw [hp]
    exact False.elim
  · rintro rate ⟨⟩
    obtain ⟨hpos, counted, rfl, hcovers⟩ := h.counting p total hp
    have hle : (s.health.fiveXxCount window s.clock).1 ≤ counted.length := by
      -- in order of age, the errors that are left are not too old
      have hfresh (x : P × Instant)
          (hx : x ∈ ((ageing window).comap Prod.snd).prune s.clock five) : Fresh window s x := by
        have hordered' : (ageing window).Ordered (five.map Prod.snd) :=
          h.errors ▸ ordered_of_pairwise h.sorted
        have hordered : ((ageing window).comap Prod.snd).Ordered five :=
          List.pairwise_map.mp hordered'
        rw [Ageing.prune_eq_filter hordered] at hx
        exact (Bool.not_eq_true' _).mp (List.mem_filter.mp hx).2
      have hlength : (s.health.fiveXxCount window s.clock).1 =
          ((((ageing window).comap Prod.snd).prune s.clock five).map Prod.fst).length := by
        rw [ServerHealth.fiveXxCount, herrors, List.length_map, List.length_map]
      rw [hlength]
      refine List.Subperm.length_le (List.Nodup.subperm (h.nodup.sublist (hsub.map Prod.fst)) ?_)
      intro q hq
      obtain ⟨x, hx, rfl⟩ := List.mem_map.mp hq
      exact hcovers.pushed x (hsub.subset hx) (hfresh x hx)
    exact ⟨by positivity, div_le_one_of_le₀ (by exact_mod_cast hle) (by positivity)⟩

/-- Every step in turn keeps it. -/
theorem step (h : Matched window late s all five) {e : Event P} (hturn : s.InTurn late e)
    (hs : s.step window e = some s') :
    ∃ all' five', Matched window (s.lateAfter late e) s' all' five' := by
  have hlate (q p : P) (hqp : late q p) : s.lateAfter late e q p := .inl hqp
  cases e with
  | tick d =>
    cases hs
    have htick := h.tick d
    -- time goes on: what was counted stays counted, and fewer times are fresh
    exact ⟨all, five, { htick with
      counting := fun q total hq => by
        obtain ⟨hpos, counted, hlength, hcovers⟩ := htick.counting q total hq
        exact ⟨hpos, counted, hlength, hcovers.mono hlate⟩ }⟩
  | run p =>
    simp only [State.step] at hs
    cases hp : s.phase p with
    | record status latency =>
      rw [hp] at hs
      cases hs
      refine ⟨all, five, h.move_idle hlate rfl rfl ?_ (by simp [hp, Closing]) (by simp) (by simp)
        (by simp)⟩
      rintro now ⟨⟩
      exact Nat.le_refl _
    | pushRequest status latency now =>
      rw [hp] at hs
      cases hs
      exact ⟨_, five, h.pushRequest hp hlate fun q hq => .inr ⟨rfl, ⟨status, latency, now, hp⟩, hq⟩⟩
    | pushError latency now =>
      rw [hp] at hs
      cases hs
      exact ⟨all, _, h.pushError hp hlate (hturn p latency now rfl hp)⟩
    | finish latency =>
      rw [hp] at hs
      cases hs
      exact ⟨all, five, h.move_idle hlate rfl rfl (by simp [reading?]) (fun _ => trivial) (by simp)
        (by simp) (by simp)⟩
    | countRequests =>
      rw [hp] at hs
      cases hs
      exact ⟨_, five, h.countRequests hp hlate⟩
    | countErrors total =>
      rw [hp] at hs
      cases hs
      exact ⟨all, _, h.countErrors hp hlate⟩
    | recorded =>
      rw [hp] at hs
      cases hs
    | rated rate =>
      rw [hp] at hs
      cases hs

theorem run (h : Matched window late s all five) {es : List (Event P)}
    (hturn : s.AllInTurn window late es) (hrun : s.run window es = some s') :
    ∃ late' all' five', Matched window late' s' all' five' := by
  induction es generalizing s late all five with
  | nil =>
    cases hrun
    exact ⟨late, all, five, h⟩
  | cons e es ih =>
    obtain ⟨s₁, hs, hrun⟩ := Option.bind_eq_some_iff.mp hrun
    obtain ⟨all₁, five₁, h₁⟩ := h.step hturn.1 hs
    exact ih h₁ (hturn.2 s₁ hs) hrun

end Matched

/-- In every run that pushes no server error out of turn, every rate is a fraction. -/
theorem rate_mem_of_run {calls : P → HealthCall} {clock : Instant} {es : List (Event P)}
    (hturn : (State.start calls clock).AllInTurn window (fun _ _ => False) es)
    (hrun : (State.start calls clock).run window es = some s) {rate : ℚ}
    (hq : s.phase q = .rated rate) : rate ∈ Set.Icc 0 1 := by
  obtain ⟨late, all, five, h⟩ := (Matched.start window calls clock).run hturn hrun
  exact h.rated q rate hq

end Invariant

/-- The rate, and one server error. -/
def twoCalls : Bool → HealthCall
  | false => .errorRate
  | true => .record 500 0

theorem rate_mem_of_run_twoCalls : ∃ (s : State Bool) (rate : ℚ),
    (State.start twoCalls 0).run 10 [.run true, .run true, .run false, .run true, .run false] =
        some s ∧
      s.phase false = .rated rate ∧ rate ∈ Set.Icc 0 1 := by
  obtain ⟨s, hrun, hrate⟩ : ∃ s : State Bool, (State.start twoCalls 0).run 10
      [.run true, .run true, .run false, .run true, .run false] = some s ∧
      s.phase false = .rated ((1 : ℕ) / (1 : ℕ)) := ⟨_, rfl, rfl⟩
  refine ⟨s, _, hrun, hrate, rate_mem_of_run (q := false) ?_ hrun hrate⟩
  refine .cons ?_ rfl (.cons ?_ rfl (.cons ?_ rfl (.cons ?_ rfl (.cons ?_ rfl trivial))))
  · rintro p latency now ⟨⟩ ⟨⟩
  · rintro p latency now ⟨⟩ ⟨⟩
  · rintro p latency now ⟨⟩ ⟨⟩
  · -- the error comes between the counts, but its request was there before them
    rintro p latency now ⟨⟩ ⟨⟩
    refine ⟨by decide, ?_⟩
    rintro q - (((hlate | ⟨-, ⟨_, _, _, hp⟩, -⟩) | ⟨-, -, total, hq⟩) | ⟨hp, -, -⟩)
    · exact hlate
    · cases hp
    · cases q <;> cases hq
    · cases hp
  · rintro p latency now ⟨⟩ ⟨⟩

/-- Three calls: the rate of the first, and two server errors. -/
def threeCalls : ℕ → HealthCall
  | 0 => .errorRate
  | _ => .record 500 0

/-- The call `0` counts one request, then a whole call of `record` passes by, and two errors are
counted. -/
theorem rate_above_one : ∃ (s : State ℕ) (rate : ℚ),
    (State.start threeCalls 0).run 10
        [.run 1, .run 1, .run 1, .run 1, .run 0, .run 2, .run 2, .run 2, .run 2, .run 0] = some s ∧
      s.phase 0 = .rated rate ∧ rate ∉ Set.Icc 0 1 := by
  obtain ⟨s, hrun, hrate⟩ : ∃ s : State ℕ, (State.start threeCalls 0).run 10
      [.run 1, .run 1, .run 1, .run 1, .run 0, .run 2, .run 2, .run 2, .run 2, .run 0] = some s ∧
      s.phase 0 = .rated ((2 : ℕ) / (1 : ℕ)) := ⟨_, rfl, rfl⟩
  exact ⟨s, _, hrun, hrate, by norm_num⟩

/-- An error behind a younger one is counted after its request has gone. -/
example : ((State.start threeCalls 5).run 10
    [.run 1, .tick 1, .run 2, .run 1, .run 2, .run 2, .run 1, .tick 10, .run 0, .run 0]).map
      (·.phase 0) = some (.rated ((2 : ℕ) / (1 : ℕ))) := rfl

end HealthRace

end ScalableBooking.LbProxy
