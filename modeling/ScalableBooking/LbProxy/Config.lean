import Mathlib.Data.List.DropRight
import ScalableBooking.LbProxy.Proxy

/-!
# Configuration from the environment

`lb-proxy/src/config.rs`. A variable that is not set reads like one that is no Unicode. The parser
of URIs is a parameter.

`from_env` looks at the list of upstream URLs and at nothing else. It refuses an empty list and a
URL without a scheme or an authority (`Config.fromEnv_eq_ok_iff`). A number is what the variable
says if it says a number of 64 bits, and the default otherwise, so a zero is taken like any other
number (`envU64_eq_zero_iff`).
-/

namespace ScalableBooking.LbProxy

open RouterCore

/-! ### Text -/

/-- `char::is_whitespace`. -/
def isWhitespace (c : Char) : Bool :=
  let n := c.toNat
  0x9 ≤ n ∧ n ≤ 0xd ∨ 0x2000 ≤ n ∧ n ≤ 0x200a ∨
    n ∈ [0x20, 0x85, 0xa0, 0x1680, 0x2028, 0x2029, 0x202f, 0x205f, 0x3000]

/-- `str::trim`. -/
def trim (text : List Char) : List Char := (text.dropWhile isWhitespace).rdropWhile isWhitespace

/-- `str::trim_end_matches`, of one character. -/
def trimEndMatches (c : Char) (text : List Char) : List Char := text.rdropWhile (· == c)

/-- A decimal digit. -/
def digit? (c : Char) : Option ℕ := if '0' ≤ c ∧ c ≤ '9' then some (c.toNat - '0'.toNat) else none

/-- The loop of `u64::from_str`: the digits that are left, and the number so far. -/
def parseDigits : List Char → ℕ → Option ℕ
  | [], n => some n
  | c :: text, n => do
    let d ← digit? c
    if 10 * n + d < 2 ^ 64 then parseDigits text (10 * n + d) else none

/-- One plus may stand in front. A minus is no digit. -/
def dropPlus : List Char → List Char
  | '+' :: text => text
  | text => text

/-- `str::parse`, for a `u64`. -/
def parseU64 (text : List Char) : Option ℕ :=
  if dropPlus text = [] then none else parseDigits (dropPlus text) 0

/-- The texts of the number zero. -/
def IsZero (text : List Char) : Prop :=
  ∃ k, text = List.replicate (k + 1) '0' ∨ text = '+' :: List.replicate (k + 1) '0'

theorem digit?_eq_zero_iff {c : Char} : digit? c = some 0 ↔ c = '0' := by
  constructor
  · intro h
    unfold digit? at h
    split at h
    · next hc =>
      have hle : '0'.toNat ≤ c.toNat := hc.1
      have hsub : c.toNat - '0'.toNat = 0 := Option.some.inj h
      exact Char.toNat_inj.mp (by omega)
    · cases h
  · rintro rfl
    rfl

theorem parseDigits_eq_zero_iff {text : List Char} {n : ℕ} :
    parseDigits text n = some 0 ↔ n = 0 ∧ ∀ c ∈ text, c = '0' := by
  induction text generalizing n with
  | nil => simp [parseDigits]
  | cons c text ih =>
    rw [List.forall_mem_cons, ← digit?_eq_zero_iff]
    unfold parseDigits
    cases hd : digit? c with
    | none => simp
    | some d =>
      show (if 10 * n + d < 2 ^ 64 then parseDigits text (10 * n + d) else none) = some 0 ↔ _
      rw [Option.some.injEq]
      split
      · rw [ih]
        constructor
        · rintro ⟨h₀, htext⟩
          exact ⟨by omega, by omega, htext⟩
        · rintro ⟨rfl, rfl, htext⟩
          exact ⟨rfl, htext⟩
      · -- a number that is too large is not zero
        constructor
        · intro h
          cases h
        · rintro ⟨rfl, rfl, -⟩
          omega

theorem dropPlus_eq_zeros_iff {text : List Char} {k : ℕ} :
    dropPlus text = List.replicate (k + 1) '0' ↔
      text = List.replicate (k + 1) '0' ∨ text = '+' :: List.replicate (k + 1) '0' := by
  unfold dropPlus
  split
  · -- the plus is no zero itself
    simp [List.replicate_succ]
  · next hplus =>
    constructor
    · exact Or.inl
    · rintro (h | h)
      · exact h
      · exact absurd h (hplus _)

theorem parseU64_eq_zero_iff {text : List Char} : parseU64 text = some 0 ↔ IsZero text := by
  unfold parseU64 IsZero
  simp only [← dropPlus_eq_zeros_iff]
  generalize dropPlus text = digits
  rcases digits with _ | ⟨c, digits⟩
  · simp [List.replicate_succ]
  · rw [if_neg (List.cons_ne_nil c digits), parseDigits_eq_zero_iff]
    constructor
    · rintro ⟨-, hall⟩
      exact ⟨digits.length, List.eq_replicate_iff.mpr ⟨rfl, hall⟩⟩
    · rintro ⟨k, hk⟩
      exact ⟨rfl, (List.eq_replicate_iff.mp hk).2⟩

/-! ### The environment -/

/-- The variables that are set, and are Unicode. -/
abbrev Env := String → Option String

/-- `str::to_lowercase`, of ASCII letters. -/
def toLowercase (text : String) : String := String.ofList (text.toList.map Char.toLower)

/-- `env_str`. -/
def envStr (env : Env) (key default : String) : String := (env key).getD default

/-- `env_u64`. -/
def envU64 (env : Env) (key : String) (default : ℕ) : ℕ :=
  ((env key).bind fun v => parseU64 (trim v.toList)).getD default

/-- With a default that is not zero, only a text of the number zero is read as zero: a variable that
is missing, or no number, or too large a one, is read as the default. -/
theorem envU64_eq_zero_iff {env : Env} {key : String} {default : ℕ} (h : default ≠ 0) :
    envU64 env key default = 0 ↔ ∃ v, env key = some v ∧ IsZero (trim v.toList) := by
  unfold envU64
  cases env key with
  | none => simp [h]
  | some v =>
    rw [Option.bind_some]
    simp only [Option.some.injEq, exists_eq_left', ← parseU64_eq_zero_iff]
    cases parseU64 (trim v.toList) with
    | none => simp [h]
    | some n => simp

/-- What `from_env` asks an `http::Uri` for. -/
structure Uri where
  scheme : Option String
  authority : Option String
deriving DecidableEq, Repr

/-- `Config` as a whole: with what only `main` and the health loop read. -/
structure FullConfig extends Config where
  listenAddr : String
  healthPoll : Duration

/-- `Duration::from_millis`. -/
def millis (n : ℕ) : Duration := n * 10 ^ 6

theorem millis_eq_zero_iff {n : ℕ} : millis n = 0 ↔ n = 0 := by
  unfold millis
  rw [Nat.mul_eq_zero]
  exact or_iff_left (by decide)

/-- `Duration::from_secs`. -/
def secs (n : ℕ) : Duration := n * 10 ^ 9

namespace FullConfig

/-- The entries of `BACKEND_POOL`. -/
def backendUrls (poolRaw : String) : List String :=
  ((poolRaw.toList.splitOn ',').map fun s => String.ofList (trimEndMatches '/' (trim s))).filter
    fun s => s ≠ ""

/-- The body of the loop that checks the URLs. -/
def checkUrl (parseUri : String → Except String Uri) (url : String) : Except String Unit :=
  match parseUri url with
  | .error e => .error s!"invalid upstream URL `{url}`: {e}"
  | .ok parsed =>
    if parsed.scheme = none ∨ parsed.authority = none then
      .error s!"invalid upstream URL `{url}`: missing scheme (expected e.g. `http://{url}`)"
    else .ok ()

/-- The names under which `ROUTING_ALGORITHM` selects round robin. -/
def roundRobinNames : List String := ["round-robin", "round_robin", "roundrobin"]

/-- What `from_env` returns once the URLs are checked. -/
def ofEnv (env : Env) (backends : List String) : FullConfig where
  backendPool := backends
  listenAddr := envStr env "LISTEN_ADDR" "0.0.0.0:8080"
  latencySlo := millis (envU64 env "LATENCY_SLO_MS" 1000)
  fiveXxWindow := secs (envU64 env "FIVE_XX_WINDOW_SECS" 10)
  healthPoll := millis (envU64 env "HEALTH_POLL_MS" 500)
  safety := {
    maxBacklog := envU64 env "MAX_BACKLOG" 100
    max5xxCount := envU64 env "MAX_5XX_COUNT" 10
    maxInFlight := envU64 env "MAX_IN_FLIGHT" 500 }
  -- outside ASCII no character becomes one of the letters of these names by itself
  algorithm :=
    if toLowercase (envStr env "ROUTING_ALGORITHM" "p2c") ∈ roundRobinNames then .roundRobin
    else .p2c

/-- `Config::from_env`. -/
def fromEnv (parseUri : String → Except String Uri) (env : Env) : Except String FullConfig := do
  let poolRaw ← match env "BACKEND_POOL" with
    | some poolRaw => pure poolRaw
    | none => throw "BACKEND_POOL is required (comma-separated upstream URLs)"
  let backends := backendUrls poolRaw
  if backends.isEmpty then throw "BACKEND_POOL must contain at least one URL"
  backends.forM (checkUrl parseUri)
  return ofEnv env backends

/-! ### What is accepted -/

variable {parseUri : String → Except String Uri} {env : Env} {cfg : FullConfig}

/-- A URL that parses, with a scheme and an authority. -/
def Usable (parseUri : String → Except String Uri) (url : String) : Prop :=
  ∃ parsed, parseUri url = .ok parsed ∧ parsed.scheme ≠ none ∧ parsed.authority ≠ none

theorem checkUrl_eq_ok_iff {url : String} :
    checkUrl parseUri url = .ok () ↔ Usable parseUri url := by
  unfold checkUrl Usable
  cases parseUri url with
  | error e => simp
  | ok parsed =>
    simp only [Except.ok.injEq, exists_eq_left', ← not_or]
    split
    · next h => simp [h]
    · next h => simp [h]

theorem forM_checkUrl_eq_ok_iff {urls : List String} :
    urls.forM (checkUrl parseUri) = .ok () ↔ ∀ url ∈ urls, Usable parseUri url := by
  induction urls with
  | nil => simp [pure, Except.pure]
  | cons url urls ih =>
    rw [List.forall_mem_cons, ← ih, ← checkUrl_eq_ok_iff]
    show (checkUrl parseUri url >>= fun _ => urls.forM (checkUrl parseUri)) = .ok () ↔ _
    cases checkUrl parseUri url with
    | error e => simp [bind, Except.bind]
    | ok u => simp [bind, Except.bind]

/-- **What `from_env` accepts.** A non-empty list of usable URLs, with the other variables as they
are. -/
theorem fromEnv_eq_ok_iff :
    fromEnv parseUri env = .ok cfg ↔ ∃ poolRaw, env "BACKEND_POOL" = some poolRaw ∧
      backendUrls poolRaw ≠ [] ∧ (∀ url ∈ backendUrls poolRaw, Usable parseUri url) ∧
      cfg = ofEnv env (backendUrls poolRaw) := by
  unfold fromEnv
  cases env "BACKEND_POOL" with
  | none => simp [bind, Except.bind, throw, throwThe, MonadExceptOf.throw]
  | some poolRaw =>
    simp only [Option.some.injEq, exists_eq_left', ← forM_checkUrl_eq_ok_iff, pure_bind]
    rcases backendUrls poolRaw with _ | ⟨url, urls⟩
    · simp [bind, Except.bind, throw, throwThe, MonadExceptOf.throw, pure, Except.pure]
    · show ((url :: urls).forM (checkUrl parseUri) >>= fun _ => pure (ofEnv env (url :: urls))) =
        .ok cfg ↔ _
      cases (url :: urls).forM (checkUrl parseUri) with
      | error e => simp [bind, Except.bind]
      | ok u => simp [bind, Except.bind, pure, Except.pure, eq_comm]

end FullConfig

end ScalableBooking.LbProxy
