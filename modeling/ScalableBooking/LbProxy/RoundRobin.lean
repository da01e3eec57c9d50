import ScalableBooking.LbProxy.Dispatch
import Mathlib.Data.Int.CardIntervalMod

/-!
# Round robin

With `RoutingAlgorithm::RoundRobin` every request that is no probe takes the next value of a cursor,
and its remainder by the number of backends is the backend. Whatever else goes on in between, the
requests are dealt out in turn (`dispatches_eq`), and no backend gets two requests more than another
as long as the cursor has not wrapped. At each wrap the turn starts over, which can cost one more
(`fair_of_run`).
-/

namespace ScalableBooking.LbProxy

open RouterCore

/-- The backends to which the requests of a run are dispatched, in the order of the dispatches. -/
noncomputable def State.dispatches (st : State) (events : List Event) : List ServerId :=
  (st.marks events).filterMap fun x => if x.1 = .dispatched then some x.2 else none

/-! ### Dealing in turn -/

/-- The backend of a value of the cursor. -/
def turn (n k : ℕ) : ServerId := ⟨k % 2 ^ 64 % n⟩

/-- How many of the first `m` values belong to a backend. -/
def share (n m i : ℕ) : ℕ := ((List.range m).map (turn n)).count ⟨i⟩

section Share

variable {n m i j : ℕ}

/-- Before the cursor wraps. -/
theorem share_eq (hn : 0 < n) (hm : m ≤ 2 ^ 64) (hi : i < n) :
    share n m i = m / n + if i < m % n then 1 else 0 := by
  have hcount : share n m i = m.count (· ≡ i [MOD n]) := by
    unfold share
    rw [List.count, List.countP_map, Nat.count]
    refine List.countP_congr fun k hk => ?_
    have hturn : turn n k = ⟨k % n⟩ := by
      unfold turn
      rw [Nat.mod_eq_of_lt ((List.mem_range.mp hk).trans_le hm)]
    simp [hturn, Nat.ModEq, Nat.mod_eq_of_lt hi]
  rw [hcount, Nat.count_modEq_card m hn, Nat.mod_eq_of_lt hi]

/-- After it has wrapped, the turn starts over. -/
theorem share_add (n m i : ℕ) : share n (2 ^ 64 + m) i = share n (2 ^ 64) i + share n m i := by
  unfold share
  rw [List.range_add, List.map_append, List.count_append, List.map_map]
  congr 2
  refine List.map_congr_left fun k _ => ?_
  show turn n (2 ^ 64 + k) = turn n k
  unfold turn
  rw [Nat.add_mod_left]

/-- The shares of two backends differ by one at most, and by one more for each wrap. -/
theorem share_le (hi : i < n) (hj : j < n) : share n m i ≤ share n m j + 1 + m / 2 ^ 64 := by
  have hn : 0 < n := Nat.zero_lt_of_lt hi
  induction m using Nat.strong_induction_on with
  | _ m ih =>
    by_cases hm : m ≤ 2 ^ 64
    · rw [share_eq hn hm hi, share_eq hn hm hj]
      split <;> split <;> omega
    · obtain ⟨m', rfl⟩ := Nat.exists_eq_add_of_le (Nat.le_of_not_le hm)
      have hrest := ih m' (by omega)
      have hfull : share n (2 ^ 64) i ≤ share n (2 ^ 64) j + 1 := by
        rw [share_eq hn le_rfl hi, share_eq hn le_rfl hj]
        split <;> split <;> omega
      rw [share_add, share_add]
      omega

end Share

/-! ### Steps -/

section Step

variable {n : ℕ} {st st' : State}

/-- **The step lemma.** Only a dispatch moves the cursor, and it goes to the backend whose turn it
is. -/
theorem InTurn.step {e : Event} (h : InTurn n st.proxy) (hn : 0 < n)
    (he : st.step e = some st') :
    SameTurn st.proxy st'.proxy ∧ (∀ sid, st.mark e ≠ some (.dispatched, sid)) ∨
      InTurn n st'.proxy ∧ st'.proxy.rrCursor = st.proxy.rrCursor + 1 ∧
        st.mark e = some (.dispatched, ⟨st.proxy.rrCursor.toNat % n⟩) := by
  have hnone : ∀ sid, (none : Option (Mark × ServerId)) ≠ some (.dispatched, sid) :=
    fun _ => (Option.some_ne_none _).symm
  cases e with
  | arrive req clock now =>
    obtain rfl := Option.some.inj he
    obtain ⟨reply, proxy, -, hsame, harrive⟩ | ⟨proxy, hturn, hcursor, harrive⟩ :=
      h.arrive hn req clock now
    · rw [State.mark_arrive harrive, harrive]
      exact .inl ⟨hsame, hnone⟩
    · rw [State.mark_arrive harrive, harrive]
      exact .inr ⟨hturn, hcursor, rfl⟩
  | build i outcome =>
    obtain ⟨sid, hi, rfl⟩ := State.step_build he
    simp only [State.mark, hi]
    cases outcome with
    | built => exact .inl ⟨.refl _, hnone⟩
    | _ => exact .inl ⟨.updateHealth _ _ _, by simp⟩
  | respond i upstream latency now =>
    obtain ⟨sid, hi, rfl⟩ := State.step_respond he
    simp only [State.mark, hi]
    cases upstream with
    | ok status => exact .inl ⟨.updateHealth _ _ _, by simp⟩
    | error =>
      exact .inl ⟨(SameTurn.updateHealth _ _ _).trans (.updateHealth _ _ _), by simp⟩
  | clientGone i =>
    obtain ⟨sid, -, rfl⟩ := State.step_clientGone he
    exact .inl ⟨.refl _, hnone⟩
  | pollBody i poll =>
    obtain ⟨sid, status, body, -, rfl⟩ := State.step_pollBody he
    exact .inl ⟨.onDone _ _ _, hnone⟩
  | dropBody i =>
    obtain ⟨sid, status, body, -, rfl⟩ := State.step_dropBody he
    exact .inl ⟨.onDone _ _ _, hnone⟩
  | syncScoreboard clock now =>
    obtain ⟨proxy, hproxy, rfl⟩ := State.step_syncScoreboard he
    exact .inl ⟨.syncScoreboard hproxy, hnone⟩

end Step

/-! ### Runs -/

theorem State.dispatches_cons {st st' : State} {e : Event} (he : st.step e = some st')
    (events : List Event) :
    st.dispatches (e :: events) =
      (st.mark e).toList.filterMap (fun x => if x.1 = .dispatched then some x.2 else none) ++
        st'.dispatches events := by
  unfold State.dispatches
  rw [State.marks_cons he, List.filterMap_append]

/-- **The run lemma.** -/
theorem InTurn.dispatches {n : ℕ} {st st' : State} {events : List Event}
    (h : InTurn n st.proxy) (hn : 0 < n) (hrun : st.run events = some st') :
    st.dispatches events = (List.range (st.dispatches events).length).map fun k =>
      turn n (st.proxy.rrCursor.toNat + k) := by
  induction events generalizing st with
  | nil => rfl
  | cons e events ih =>
    rw [State.run_cons] at hrun
    obtain ⟨st₁, he, hrun⟩ := Option.bind_eq_some_iff.mp hrun
    rw [State.dispatches_cons he]
    obtain ⟨hsame, hmark⟩ | ⟨hturn, hcursor, hmark⟩ := h.step hn he
    · -- no dispatch, and the cursor stays
      have hnil : (st.mark e).toList.filterMap
          (fun x => if x.1 = .dispatched then some x.2 else none) = [] := by
        cases hm : st.mark e with
        | none => rfl
        | some x =>
          have hx : x.1 ≠ .dispatched := fun hx => hmark x.2 (by rw [hm, ← hx])
          simp [hx]
      rw [hnil, List.nil_append, ← hsame.rrCursor]
      exact ih (h.of_same hsame) hrun
    · have hone : (st.mark e).toList.filterMap
          (fun x => if x.1 = .dispatched then some x.2 else none) ++ st₁.dispatches events =
            ⟨st.proxy.rrCursor.toNat % n⟩ :: st₁.dispatches events := by
        rw [hmark]
        rfl
      have hmod : ∀ k, turn n ((st.proxy.rrCursor + 1).toNat + k) =
          turn n (st.proxy.rrCursor.toNat + (k + 1)) := by
        intro k
        unfold turn
        rw [BitVec.toNat_add, Nat.mod_add_mod]
        congr 3
        simp only [BitVec.reduceToNat]
        omega
      have hhead : turn n st.proxy.rrCursor.toNat = ⟨st.proxy.rrCursor.toNat % n⟩ := by
        unfold turn
        rw [Nat.mod_eq_of_lt st.proxy.rrCursor.isLt]
      rw [hone, List.length_cons, List.range_succ_eq_map, List.map_cons, List.map_map, Nat.add_zero,
        hhead, List.cons.injEq]
      refine ⟨rfl, (ih hturn hrun).trans (List.map_congr_left fun k _ => ?_)⟩
      rw [hcursor]
      exact hmod k

section Fair

variable {cfg : Config} {created : ℕ → Instant} {seed : BitVec 64} {events : List Event}
  {st : State}

/-- The requests of a run are dealt out in turn. -/
theorem dispatches_eq (halg : cfg.algorithm = .roundRobin) (hpool : 0 < cfg.backendPool.length)
    (hrun : (State.init cfg created seed).run events = some st) :
    (State.init cfg created seed).dispatches events =
      (List.range ((State.init cfg created seed).dispatches events).length).map
        (turn cfg.backendPool.length) := by
  refine ((inTurn_init halg created seed).dispatches hpool hrun).trans ?_
  refine List.map_congr_left fun k _ => ?_
  show turn _ (0 + k) = _
  rw [Nat.zero_add]

/-- **Round robin is fair.** In every run no backend is dispatched more requests than another but
for one, and for one more each time the cursor has wrapped. -/
theorem fair_of_run (halg : cfg.algorithm = .roundRobin)
    (hrun : (State.init cfg created seed).run events = some st) {i j : ℕ}
    (hi : i < cfg.backendPool.length) (hj : j < cfg.backendPool.length) :
    ((State.init cfg created seed).dispatches events).count ⟨i⟩ ≤
      ((State.init cfg created seed).dispatches events).count ⟨j⟩ + 1 +
        ((State.init cfg created seed).dispatches events).length / 2 ^ 64 := by
  have hdeal := dispatches_eq halg (Nat.zero_lt_of_lt hi) hrun
  calc ((State.init cfg created seed).dispatches events).count ⟨i⟩
      = share cfg.backendPool.length _ i := congrArg (List.count _) hdeal
    _ ≤ share cfg.backendPool.length _ j + 1 + _ / 2 ^ 64 := share_le hi hj
    _ = _ := by rw [share, ← hdeal]

end Fair

/-- A proxy in front of two backends. -/
def twoBackends : Config :=
  { oneBackend with backendPool := ["http://backend-0:3000", "http://backend-1:3000"] }

/-- Three requests, and the client of the first one goes away. -/
def threeTurns : List Event := [ping, ping, .build 0 .built, .clientGone 0, ping]

theorem run_threeTurns : ∃ st,
    (State.init twoBackends (fun i => i) 1).run threeTurns = some st ∧
      (State.init twoBackends (fun i => i) 1).dispatches threeTurns = [⟨0⟩, ⟨1⟩, ⟨0⟩] := by
  have halg : twoBackends.algorithm = .roundRobin := rfl
  have h₀ := inTurn_init halg (fun i => i) 1
  obtain ⟨proxy₁, h₁, hc₁, hs₁⟩ := h₀.step_ping Nat.two_pos rfl []
  obtain ⟨proxy₂, h₂, hc₂, hs₂⟩ := h₁.step_ping Nat.two_pos hc₁ [.dispatched ⟨0⟩]
  obtain ⟨proxy₃, -, -, hs₃⟩ := h₂.step_ping Nat.two_pos hc₂ [.abandoned ⟨0⟩, .dispatched ⟨1⟩]
  replace hs₁ : (State.init twoBackends (fun i => i) 1).step ping =
    some ⟨proxy₁, [.dispatched ⟨0⟩]⟩ := hs₁
  replace hs₂ : (⟨proxy₁, [.dispatched ⟨0⟩]⟩ : State).step ping =
    some ⟨proxy₂, [.dispatched ⟨0⟩, .dispatched ⟨1⟩]⟩ := hs₂
  replace hs₃ : (⟨proxy₂, [.abandoned ⟨0⟩, .dispatched ⟨1⟩]⟩ : State).step ping =
    some ⟨proxy₃, [.abandoned ⟨0⟩, .dispatched ⟨1⟩, .dispatched ⟨0⟩]⟩ := hs₃
  have hbuild : (⟨proxy₂, [.dispatched ⟨0⟩, .dispatched ⟨1⟩]⟩ : State).step (.build 0 .built) =
    some ⟨proxy₂, [.awaiting ⟨0⟩, .dispatched ⟨1⟩]⟩ := rfl
  have hgone : (⟨proxy₂, [.awaiting ⟨0⟩, .dispatched ⟨1⟩]⟩ : State).step (.clientGone 0) =
    some ⟨proxy₂, [.abandoned ⟨0⟩, .dispatched ⟨1⟩]⟩ := rfl
  refine ⟨⟨proxy₃, [.abandoned ⟨0⟩, .dispatched ⟨1⟩, .dispatched ⟨0⟩]⟩, ?_, ?_⟩
  · rw [threeTurns, State.run_cons, hs₁, Option.bind_some, State.run_cons, hs₂, Option.bind_some,
      State.run_cons, hbuild, Option.bind_some, State.run_cons, hgone, Option.bind_some,
      State.run_cons, hs₃]
    rfl
  · have hmark₁ := @State.mark_arrive _ _ _ _ (.dispatched ⟨0⟩) _ (Option.some.inj hs₁)
    have hmark₂ := @State.mark_arrive _ _ _ _ (.dispatched ⟨1⟩) _ (Option.some.inj hs₂)
    have hmark₃ := @State.mark_arrive _ _ _ _ (.dispatched ⟨0⟩) _ (Option.some.inj hs₃)
    rw [threeTurns, State.dispatches_cons hs₁, State.dispatches_cons hs₂,
      State.dispatches_cons hbuild, State.dispatches_cons hgone, State.dispatches_cons hs₃, ping,
      hmark₁, hmark₂, hmark₃]
    rfl

theorem fair_of_run_threeTurns : ∃ st,
    (State.init twoBackends (fun i => i) 1).run threeTurns = some st ∧
      (State.init twoBackends (fun i => i) 1).dispatches threeTurns = [⟨0⟩, ⟨1⟩, ⟨0⟩] ∧
      ((State.init twoBackends (fun i => i) 1).dispatches threeTurns).count ⟨0⟩ ≤
        ((State.init twoBackends (fun i => i) 1).dispatches threeTurns).count ⟨1⟩ + 1 +
          ((State.init twoBackends (fun i => i) 1).dispatches threeTurns).length / 2 ^ 64 := by
  obtain ⟨st, hrun, hdispatches⟩ := run_threeTurns
  exact ⟨st, hrun, hdispatches, fair_of_run rfl hrun (by decide) (by decide)⟩

end ScalableBooking.LbProxy
