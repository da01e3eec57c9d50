import ScalableBooking.Lib.ExpiringCounter

/-!
# The rate limiter

`rateLimiter.ts`, the hook in front of every handler, with the two Redis commands it sends.
Each request sends them one after the other, so those of several requests interleave, and a
request can be lost between any two of its steps.

A key has a counter and perhaps a deadline. When its deadline has come it expires: it may be gone
at once, and after the deadline no command sees it. What Redis does not keep, and the model
does, is how often a key has been created, so that its lifetimes can be told apart.
-/

namespace ScalableBooking.RateLimit

open ExpiringCounter (Counter Count)

/-! ### Requests -/

/-- What an `AppError` tells the client. -/
structure AppError where
  message : String
  statusCode : ℕ
  code : String
deriving DecidableEq, Repr

/-- `RateLimitError`. -/
def RateLimitError : AppError where
  message := "Too many requests, please try again later"
  statusCode := 429
  code := "RATE_LIMIT_EXCEEDED"

/-- The settings the limiter reads: positive integers. -/
structure Env where
  maxRequests : ℕ
  windowSeconds : ℕ
  maxRequests_pos : 0 < maxRequests
  windowSeconds_pos : 0 < windowSeconds

/-- The environment when neither of the two variables is set. -/
def Env.default : Env where
  maxRequests := 100
  windowSeconds := 60
  maxRequests_pos := by decide
  windowSeconds_pos := by decide

/-- The window in milliseconds. -/
def Env.window (env : Env) : ℕ := env.windowSeconds * 1000

/-- What the limiter reads of a request: `routeOptions.url` and `ip`. -/
structure Request where
  routeUrl : Option String
  ip : Option String
deriving DecidableEq, Repr

/-- `EXEMPT_ROUTES`. -/
def exemptRoutes : List String := ["/health", "/metrics"]

namespace Request

/-- The request goes to one of the exempt routes. -/
def exempt (request : Request) : Bool := request.routeUrl.any exemptRoutes.contains

/-- The key it is counted under. -/
def key (request : Request) : String := "rate_limit:" ++ request.ip.getD "unknown"

end Request

/-! ### Redis -/

/-- Where a request is: before its `INCR`, after it, after its `EXPIRE`, or at its end. -/
inductive Phase where
  | arrived
  | exempted
  | counted (count : Count)
  | windowed (count : Count)
  | admitted (count : Count)
  | rejected (error : AppError) (count : Count)
  | crashed (count : Option Count)
deriving DecidableEq, Repr

/-- What the request's `INCR` has given, if it has sent one. -/
def Phase.count : Phase → Option Count
  | arrived | exempted => none
  | counted count | windowed count | admitted count | rejected _ count => some count
  | crashed count => count

/-- Redis and the requests. `lives` says how often a key has been created. -/
structure State (P : Type) where
  clock : ℕ
  redis : String → Option Counter
  lives : String → ℕ
  phase : P → Phase

/-- Time passes, a request makes its next step or is lost, or a key expires. -/
inductive Event (P : Type) where
  | tick (d : ℕ)
  | run (p : P)
  | crash (p : P)
  | expire (key : String)

namespace State

variable {P : Type}

/-- No request has begun. -/
def start (redis : String → Option Counter) (clock : ℕ) : State P where
  clock
  redis
  lives _ := 0
  phase _ := .arrived

/-- The counter that a command finds: one that has not expired. -/
def live (s : State P) (key : String) : Option Counter :=
  (s.redis key).filter fun counter => counter.expiresAt.all fun t => s.clock ≤ t

/-- The key now has this counter. -/
def set (s : State P) (key : String) (counter : Counter) : State P :=
  { s with redis := Function.update s.redis key (some counter) }

/-- `INCR key`: a key that is missing is created, without a deadline. -/
def incr (s : State P) (key : String) : State P × Count :=
  match s.live key with
  | some counter =>
      let current := counter.value + 1
      (s.set key { counter with value := current }, ⟨current, s.clock, s.lives key⟩)
  | none =>
      let life := s.lives key + 1
      ({ s.set key { value := 1, expiresAt := none } with
          lives := Function.update s.lives key life }, ⟨1, s.clock, life⟩)

/-- `EXPIRE key seconds NX`. -/
def expireNx (s : State P) (key : String) (seconds : ℕ) : State P :=
  match s.live key with
  | some { value, expiresAt := none } =>
      s.set key { value, expiresAt := some (s.clock + seconds * 1000) }
  | _ => s

variable [DecidableEq P]

/-- The request `p` is now at this phase. -/
def goto (s : State P) (p : P) (phase : Phase) : State P :=
  { s with phase := Function.update s.phase p phase }

/-- One step, if the event can happen. -/
def step (env : Env) (requests : P → Request) (s : State P) : Event P → Option (State P)
  | .tick d => some { s with clock := s.clock + d }
  | .run p =>
      match s.phase p with
      | .arrived =>
          if (requests p).exempt then some (s.goto p .exempted)
          else
            let (s', count) := s.incr (requests p).key
            some (s'.goto p (.counted count))
      | .counted count =>
          -- `INCR` and `EXPIRE NX` are two commands, so others can come in between
          some ((s.expireNx (requests p).key env.windowSeconds).goto p (.windowed count))
      | .windowed count =>
          if count.current > env.maxRequests then
            some (s.goto p (.rejected RateLimitError count))
          else some (s.goto p (.admitted count))
      | _ => none
  | .crash p =>
      match s.phase p with
      -- the process is gone, what it has told Redis stays
      | .arrived | .counted _ | .windowed _ => some (s.goto p (.crashed (s.phase p).count))
      | _ => none
  | .expire key =>
      (s.redis key).bind fun counter => counter.expiresAt.bind fun t =>
        if t ≤ s.clock then some { s with redis := Function.update s.redis key none } else none

/-- A run: its events one after another. -/
def run (env : Env) (requests : P → Request) (s : State P) : List (Event P) → Option (State P)
  | [] => some s
  | e :: es => (s.step env requests e).bind fun s' => s'.run env requests es

end State

end ScalableBooking.RateLimit
