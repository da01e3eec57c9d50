import ScalableBooking.RouterCore.Scoreboard

/-!
# The routing decision

`router-core/src/router.rs`: power of two choices over the published weights. Two distinct
positions of the pool are drawn with a xorshift generator, each of the two servers gets an
effective weight, and the larger one wins, the first one on a tie.

The draw and the decision are separate here. `Router.chooseServerAt` is the decision as a
function of the two index draws, and `Router.chooseServer` feeds it from the generator and
returns the router with the advanced generator (`chooseServer_eq`).

The decision is written over any type `F` with the operations of `f64` it uses, and nothing
is assumed of them: products may round, and a NaN may compare with nothing. `Float` is one
such type. Over `ℝ` the safety override multiplies by `0.1` once for each threshold a server
exceeds, so an effective weight is the base weight times a power of `1 / 10`
(`effectiveOf_eq`). That is the only fact later modules about exact arithmetic use.
-/

namespace ScalableBooking.RouterCore

/-- The routing engine. The `Cell` with the generator's state is a field of the value that
is passed along. -/
structure Router (F : Type := ℝ) where
  scoreboard : Scoreboard F
  servers : List ServerId
  safety : SafetyThresholds
  rngState : BitVec 64

/-- One step of xorshift64. -/
def xorshift (s : BitVec 64) : BitVec 64 :=
  let s := s ^^^ (s <<< 13)
  let s := s ^^^ (s >>> 7)
  s ^^^ (s <<< 17)

/-- Advance the second draw when it collides with the first. -/
def avoidCollision {n : ℕ} (i j : Fin n) : Fin n :=
  if j = i then ⟨(j + 1) % n, Nat.mod_lt _ i.pos⟩ else j

namespace Router

section Draws

variable {F : Type}

/-- `Router::new`, with the reading of the system clock that seeds the generator. -/
def new (scoreboard : Scoreboard F) (servers : List ServerId) (safety : SafetyThresholds)
    (seed : BitVec 64) : Router F where
  scoreboard := scoreboard
  servers := servers
  safety := safety
  rngState := seed ||| 1

/-- `fast_random_index`. -/
def fastRandomIndex (r : Router F) {n : ℕ} (hn : 0 < n) : Fin n × Router F :=
  let s := xorshift r.rngState
  (⟨s.toNat % n, Nat.mod_lt _ hn⟩, { r with rngState := s })

/-- The two index draws of a decision, and the router with the advanced generator. -/
def draws (r : Router F) {n : ℕ} (hn : 0 < n) : (Fin n × Fin n) × Router F :=
  let (i, r₁) := r.fastRandomIndex hn
  -- the second draw continues where the first one left the generator
  let (j, r₂) := r₁.fastRandomIndex hn
  ((i, j), r₂)

/-- The two servers a decision compares. -/
def candidates (r : Router F) (hn : 0 < r.servers.length) : ServerId × ServerId :=
  let (i, j) := (r.draws hn).1
  (r.servers.get i, r.servers.get (avoidCollision i j))

end Draws

/-! ### Effective weights -/

section Decision

variable {F : Type} [One F] [Mul F] [Div F] [NatCast F] [OfScientific F] [LE F] [DecidableLE F]

/-- The published weight while it is fresh, an equal share otherwise. -/
def baseWeight (r : Router F) (score : Option (ServerScore F)) (now : Instant)
    (ttl : Duration) : F :=
  match score with
  -- a stale score counts as no score
  | some s => if durationSince now s.updatedAt < ttl then s.weight else 1 / (r.servers.length : F)
  | none => 1 / (r.servers.length : F)

/-- The fast safety override: a factor of `0.1` for every threshold that is exceeded. -/
def penalty (r : Router F) (signals : Option FastHealthSignals) : F :=
  match signals with
  | none => 1
  | some sig =>
    let penalty : F := 1
    let penalty := if r.safety.maxBacklog < sig.backlog then penalty * 0.1 else penalty
    let penalty := if r.safety.max5xxCount < sig.error5xxCount then penalty * 0.1 else penalty
    if r.safety.maxInFlight < sig.inFlight then penalty * 0.1 else penalty

/-- `effective_weight`. -/
def effectiveWeight (r : Router F) (score : Option (ServerScore F)) (server : ServerId)
    (fastSignals : SignalMap) (now : Instant) (ttl : Duration) : F :=
  r.baseWeight score now ttl * r.penalty (fastSignals.lookup server)

/-! ### The decision -/

variable (r : Router F) (fastSignals : SignalMap) (now : Instant)

/-- The base weight of a server on the router's own board. -/
def baseOf (server : ServerId) : F :=
  r.baseWeight (r.scoreboard.inner.lookup server) now r.scoreboard.stalenessTtl

/-- The effective weight of a server on the router's own board. -/
def effectiveOf (server : ServerId) : F :=
  r.effectiveWeight (r.scoreboard.inner.lookup server) server fastSignals now
    r.scoreboard.stalenessTtl

/-- The better of two candidates, the first one on a tie. -/
def better (a b : ServerId) : ServerId :=
  if r.effectiveOf fastSignals now b ≤ r.effectiveOf fastSignals now a then a else b

/-- `choose_server` on a non-empty pool, as a function of the two index draws. -/
def chooseServerAt (u v : Fin r.servers.length) : ServerId :=
  if r.servers.length = 1 then r.servers.get ⟨0, u.pos⟩
  else r.better fastSignals now (r.servers.get u) (r.servers.get (avoidCollision u v))

/-- `choose_server`. -/
def chooseServer : Option ServerId × Router F :=
  if hn : 0 < r.servers.length then
    -- no draw, so the generator stays as it is
    if r.servers.length = 1 then (some (r.servers.get ⟨0, hn⟩), r)
    else
      let ((i, j), r') := r.draws hn
      (some (r.chooseServerAt fastSignals now i j), r')
  else (none, r)

end Decision

/-! ### The pool -/

/-- `add_server`. -/
def addServer (r : Router) (server : ServerId) : Router :=
  if server ∈ r.servers then r else { r with servers := r.servers ++ [server] }

/-- `remove_server`. -/
def removeServer (r : Router) (server : ServerId) : Router :=
  { r with servers := r.servers.filter (· ≠ server) }

/-- Neither operation registers a server twice. -/
theorem nodup_addServer {r : Router} (h : r.servers.Nodup) (server : ServerId) :
    (r.addServer server).servers.Nodup := by
  unfold addServer
  split
  · exact h
  · next hnew =>
    show (r.servers ++ [server]).Nodup
    rw [List.nodup_append]
    refine ⟨h, List.nodup_singleton server, ?_⟩
    -- the new server is not among the old ones
    rintro a ha b hb rfl
    rw [List.mem_singleton] at hb
    exact hnew (hb ▸ ha)

theorem nodup_removeServer {r : Router} (h : r.servers.Nodup) (server : ServerId) :
    (r.removeServer server).servers.Nodup :=
  h.filter _

/-! ### The penalty as a power -/

/-- How many of the three thresholds a server exceeds. -/
def exceeded (r : Router) (signals : Option FastHealthSignals) : ℕ :=
  match signals with
  | none => 0
  | some sig =>
    (if r.safety.maxBacklog < sig.backlog then 1 else 0) +
      (if r.safety.max5xxCount < sig.error5xxCount then 1 else 0) +
      if r.safety.maxInFlight < sig.inFlight then 1 else 0

theorem penalty_eq (r : Router) (signals : Option FastHealthSignals) :
    r.penalty signals = (1 / 10 : ℝ) ^ r.exceeded signals := by
  cases signals with
  | none => rfl
  | some sig =>
    simp only [penalty, exceeded]
    -- eight cases, and in each as many factors as summands
    split_ifs <;> norm_num

theorem effectiveOf_eq (r : Router) (fastSignals : SignalMap) (now : Instant)
    (server : ServerId) :
    r.effectiveOf fastSignals now server =
      r.baseOf now server * (1 / 10 : ℝ) ^ r.exceeded (fastSignals.lookup server) := by
  rw [effectiveOf, effectiveWeight, penalty_eq, baseOf]

/-! ### What a decision is -/

theorem avoidCollision_ne {n : ℕ} (hn : n ≠ 1) (i j : Fin n) : avoidCollision i j ≠ i := by
  unfold avoidCollision
  split
  · next hji =>
    subst hji
    intro h
    have hval : (j.val + 1) % n = j.val := congrArg Fin.val h
    have hj := j.isLt
    -- advancing by one is the identity modulo `1` only
    rcases Nat.lt_or_ge (j.val + 1) n with hlt | hge
    · rw [Nat.mod_eq_of_lt hlt] at hval
      omega
    · rw [show j.val + 1 = n by omega, Nat.mod_self] at hval
      omega
  · next hji => exact hji

theorem avoidCollision_of_ne {n : ℕ} {i j : Fin n} (h : j ≠ i) : avoidCollision i j = j :=
  if_neg h

section Spec

variable {F : Type} [One F] [Mul F] [Div F] [NatCast F] [OfScientific F] [LE F] [DecidableLE F]
  {r : Router F} {fastSignals : SignalMap} {now : Instant}

/-- On a pool of two or more, the decision is between two distinct positions. -/
theorem chooseServerAt_of_ne_one (hn : r.servers.length ≠ 1) (u v : Fin r.servers.length) :
    r.chooseServerAt fastSignals now u v =
      r.better fastSignals now (r.servers.get u) (r.servers.get (avoidCollision u v)) :=
  if_neg hn

/-- `choose_server` is the decision at the two indices the generator draws next. -/
theorem chooseServer_eq (hn : 0 < r.servers.length) :
    (r.chooseServer fastSignals now).1 =
      some (r.chooseServerAt fastSignals now (r.draws hn).1.1 (r.draws hn).1.2) := by
  unfold chooseServer
  rw [dif_pos hn]
  by_cases h1 : r.servers.length = 1
  · -- no draw is made, and every draw would lead to the same server
    rw [if_pos h1, chooseServerAt, if_pos h1]
  · rw [if_neg h1]

/-- On a pool of two or more, `choose_server` returns the better of its two candidates. -/
theorem chooseServer_eq_better (hn : 0 < r.servers.length) (h1 : r.servers.length ≠ 1) :
    (r.chooseServer fastSignals now).1 =
      some (r.better fastSignals now (r.candidates hn).1 (r.candidates hn).2) := by
  rw [chooseServer_eq hn, chooseServerAt_of_ne_one h1]
  rfl

end Spec

theorem candidates_mem {F : Type} {r : Router F} (hn : 0 < r.servers.length) :
    (r.candidates hn).1 ∈ r.servers ∧ (r.candidates hn).2 ∈ r.servers :=
  ⟨List.get_mem _ _, List.get_mem _ _⟩

/-- Whoever wins is one of the two, and the other one is not better. -/
theorem better_spec (r : Router) (fastSignals : SignalMap) (now : Instant) (a b : ServerId) :
    (r.better fastSignals now a b = a ∧
        r.effectiveOf fastSignals now b ≤ r.effectiveOf fastSignals now a) ∨
      (r.better fastSignals now a b = b ∧
        r.effectiveOf fastSignals now a < r.effectiveOf fastSignals now b) := by
  unfold better
  split
  · next h => exact Or.inl ⟨rfl, h⟩
  · next h => exact Or.inr ⟨rfl, not_le.mp h⟩

end Router

end ScalableBooking.RouterCore
