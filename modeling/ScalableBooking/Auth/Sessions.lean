import ScalableBooking.Auth.Login
import ScalableBooking.Lib.Runs

/-!
# Who a request acts for

Any number of calls of `registerUser` and `loginUser`, with any e-mails, and requests that pass
through `requireAuth`, interleaved in any order while time goes on. The log has what each of them
has come to.

A token is handed out with the id of a row whose password the caller has given. If nobody else has
the secret (`SecretKept`), every request that acts for a user carries such a token
(`authentic_of_run`). A server keeps no sessions, so this holds of a request to any of them.
-/

namespace ScalableBooking.Auth

/-! ### The service -/

/-- A call of `loginUser`. -/
structure Login where
  email : String
  password : String

/-- Where it stands. -/
inductive LoginPhase where
  | findUserByEmail
  | verifyPassword (user : Option User)
  | ended
deriving DecidableEq

/-- The calls of `registerUser` and of `loginUser`. -/
structure Traffic (P L : Type) where
  email : P → String
  calls : P → Call
  logins : L → Login

/-- What has come of a call or a request. -/
inductive Entry (N : Type) where
  | signedIn (time : ℕ) (email password : String) (result : Registered)
  | refused (err : Thrown)
  | failed
  | acting (time : ℕ) (authorization : Option String) (userId : N)

/-- The table with the registrations, the log-ins, and the log. -/
structure Sessions (N P L : Type) where
  clock : ℕ
  auth : State P
  login : L → LoginPhase
  log : List (Entry N)

/-- Time passes, a call makes its next step, or a request comes to `requireAuth`. -/
inductive Event (P L : Type) where
  | tick (d : ℕ)
  | register (p : P)
  | login (l : L)
  | request (authorization : Option String)

namespace Sessions

variable {N P L : Type}

/-- Nothing has been called. -/
def start (clock : ℕ) (users : Users) : Sessions N P L where
  clock := clock
  auth := .start users
  login _ := .findUserByEmail
  log := []

/-- What the log says of a registration after its step. -/
def registered (clock : ℕ) (email password : String) : Phase → List (Entry N)
  | .resolved result => [.signedIn clock email password result]
  | .rejected err => [.refused err]
  | .findUserByEmail | .createUser _ => []

/-- What the log says of a log-in. -/
def loggedIn (clock : ℕ) (email password : String) :
    Except Javascript.Exception (Except Thrown Registered) → List (Entry N)
  | .ok (.ok result) => [.signedIn clock email password result]
  | .ok (.error err) => [.refused err]
  | .error _ => [.failed]

/-- A token has been handed out. -/
def Issued (s : Sessions N P L) (token : String) : Prop :=
  ∃ time email password result, .signedIn time email password result ∈ s.log ∧
    result.token = token

variable [NatCast N]

section Model

variable [DecidableEq P] [DecidableEq L]

/-- One step, if it can be made. -/
def step (scrypt : Scrypt) (jwt : Jwt N) (traffic : Traffic P L) (s : Sessions N P L) :
    Event P L → Option (Sessions N P L)
  | .tick d => some { s with clock := s.clock + d }
  | .register p =>
      (s.auth.step ⟨scrypt, fun id => jwt.sign id s.clock⟩ (traffic.email p) traffic.calls p).map
        fun auth =>
          { s with auth, log := s.log ++
              registered s.clock (traffic.email p) (traffic.calls p).password (auth.phase p) }
  | .login l =>
      match s.login l with
      | .findUserByEmail =>
          let user := findUserByEmail s.auth.users (traffic.logins l).email
          some { s with login := Function.update s.login l (.verifyPassword user) }
      | .verifyPassword user =>
          let login := Auth.login scrypt (fun id => jwt.sign id s.clock) user
            (traffic.logins l).password
          some { s with
            login := Function.update s.login l .ended
            log := s.log ++ loggedIn s.clock (traffic.logins l).email (traffic.logins l).password
              login.result }
      | .ended => none
  | .request authorization =>
      match requireAuth jwt authorization s.clock with
      | .ok userId => some { s with log := s.log ++ [.acting s.clock authorization userId] }
      | .error err => some { s with log := s.log ++ [.refused err] }

def run (scrypt : Scrypt) (jwt : Jwt N) (traffic : Traffic P L) (s : Sessions N P L)
    (es : List (Event P L)) : Option (Sessions N P L) :=
  es.foldlM (step scrypt jwt traffic) s

/-- Whoever presents a signed token has it from the service: nobody else can sign. -/
def SecretKept (scrypt : Scrypt) (jwt : Jwt N) (traffic : Traffic P L) :
    Sessions N P L → List (Event P L) → Prop
  | _, [] => True
  | s, e :: es =>
      (∀ id time, e = .request (some ("Bearer " ++ jwt.sign id time)) →
          s.Issued (jwt.sign id time)) ∧
        ∀ s', s.step scrypt jwt traffic e = some s' → SecretKept scrypt jwt traffic s' es

end Model

/-! ### The invariant -/

/-- A token that has been handed out was signed at that time for a row with the e-mail, and the
password is right for the row. -/
structure Vouched (scrypt : Scrypt) (jwt : Jwt N) (users : Users) (clock time : ℕ)
    (email password : String) (result : Registered) : Prop where
  le : time ≤ clock
  token : result.token = jwt.sign result.id time
  row : ∃ row ∈ users.rows, row.id = result.id ∧ row.email = email ∧
    (verifyPassword scrypt password row.passwordHash).result = .ok true

theorem Vouched.mono {scrypt : Scrypt} {jwt : Jwt N} {users users' : Users} {clock clock' time : ℕ}
    {email password : String} {result : Registered}
    (h : Vouched scrypt jwt users clock time email password result) (hle : clock ≤ clock')
    (hrows : ∀ row ∈ users.rows, row ∈ users'.rows) :
    Vouched scrypt jwt users' clock' time email password result where
  le := h.le.trans hle
  token := h.token
  row := by
    obtain ⟨row, hrow, hright⟩ := h.row
    exact ⟨row, hrows row hrow, hright⟩

/-- A request that acts for a user has one of the tokens that were handed out before, and it has not
expired. -/
def Authentic (jwt : Jwt N) (log : List (Entry N)) : Prop :=
  ∀ (i time : ℕ) (authorization : Option String) (userId : N),
    log[i]? = some (.acting time authorization userId) →
    ∃ j < i, ∃ time' email password, ∃ result : Registered,
      log[j]? = some (.signedIn time' email password result) ∧
      authorization = some ("Bearer " ++ result.token) ∧ userId = result.id ∧
      time < time' + jwt.lifetime

/-- Entries that are not about a request. -/
theorem Authentic.append {jwt : Jwt N} {log entries : List (Entry N)} (h : Authentic jwt log)
    (hentries : ∀ time authorization userId,
      Entry.acting time authorization userId ∉ entries) :
    Authentic jwt (log ++ entries) := by
  intro i time authorization userId hi
  rw [List.getElem?_append] at hi
  split at hi
  · obtain ⟨j, hj, time', email, password, result, hsigned, hrest⟩ := h i time _ userId hi
    refine ⟨j, hj, time', email, password, result, ?_, hrest⟩
    rw [List.getElem?_append_left (by omega)]
    exact hsigned
  · exact absurd (List.mem_of_getElem? hi) (hentries _ _ _)

/-- What holds of the service at all times. -/
structure Honest (scrypt : Scrypt) (jwt : Jwt N) (traffic : Traffic P L) (s : Sessions N P L) :
    Prop where
  hashed : ∀ p passwordHash, s.auth.phase p = .createUser passwordHash →
    passwordHash = hashPassword scrypt (traffic.calls p).salt (traffic.calls p).password
  found : ∀ l user, s.login l = .verifyPassword (some user) →
    user ∈ s.auth.users.rows ∧ user.email = (traffic.logins l).email
  signed : ∀ time email password result, .signedIn time email password result ∈ s.log →
    Vouched scrypt jwt s.auth.users s.clock time email password result
  authentic : Authentic jwt s.log

variable {scrypt : Scrypt} {jwt : Jwt N} {traffic : Traffic P L} {s s' : Sessions N P L}

/-- A token that a log-in hands out is vouched for. -/
theorem vouched_login {users : Users} {user : Option User} {clock : ℕ} {email password : String}
    {result : Registered} (hfound : ∀ row, user = some row → row ∈ users.rows ∧ row.email = email)
    (h : (Auth.login scrypt (fun id => jwt.sign id clock) user password).result =
      .ok (.ok result)) :
    Vouched scrypt jwt users clock clock email password result := by
  cases hverify : verifyPassword scrypt password (storedFor user) with
  | mk outcome calls =>
    cases outcome with
    | error err => simp [Auth.login, Bind.bind, Hashing.bind, hverify] at h
    | ok valid =>
      rw [login_of_verifyPassword hverify] at h
      replace h := Except.ok.inj h
      unfold answerLogin at h
      split at h
      · rename_i row
        obtain rfl : _ = result := Except.ok.inj h
        obtain ⟨hrow, hemail⟩ := hfound row rfl
        exact ⟨le_rfl, rfl, row, hrow, rfl, hemail, congrArg Hashing.result hverify⟩
      · cases h

/-- The log gets entries that are not about a request. -/
theorem Honest.append (h : Honest scrypt jwt traffic s) {auth : State P} {login : L → LoginPhase}
    {entries : List (Entry N)}
    (hashed : ∀ p passwordHash, auth.phase p = .createUser passwordHash →
      passwordHash = hashPassword scrypt (traffic.calls p).salt (traffic.calls p).password)
    (found : ∀ l user, login l = .verifyPassword (some user) →
      user ∈ auth.users.rows ∧ user.email = (traffic.logins l).email)
    (hrows : ∀ row ∈ s.auth.users.rows, row ∈ auth.users.rows)
    (signed : ∀ time email password result, .signedIn time email password result ∈ entries →
      Vouched scrypt jwt auth.users s.clock time email password result)
    (hentries : ∀ time authorization userId,
      Entry.acting time authorization userId ∉ entries) :
    Honest scrypt jwt traffic
      { clock := s.clock, auth := auth, login := login, log := s.log ++ entries } where
  hashed := hashed
  found := found
  signed time email password result hmem := by
    obtain hmem | hmem := List.mem_append.mp hmem
    · exact (h.signed _ _ _ _ hmem).mono le_rfl hrows
    · exact signed _ _ _ _ hmem
  authentic := h.authentic.append hentries

/-- A request that passes. -/
theorem Honest.request (h : Honest scrypt jwt traffic s) {authorization : Option String}
    {userId : N}
    (hpass : requireAuth jwt authorization s.clock = .ok userId)
    (hkept : ∀ id time, authorization = some ("Bearer " ++ jwt.sign id time) →
      s.Issued (jwt.sign id time)) :
    Authentic jwt (s.log ++ [.acting s.clock authorization userId]) := by
  intro i time authorization' userId' hi
  rw [List.getElem?_append] at hi
  split at hi
  · obtain ⟨j, hj, time', email, password, result, hsigned, hrest⟩ := h.authentic i time _ _ hi
    refine ⟨j, hj, time', email, password, result, ?_, hrest⟩
    rw [List.getElem?_append_left (by omega)]
    exact hsigned
  · rename_i hle
    obtain ⟨rfl, rfl, rfl⟩ : s.clock = time ∧ authorization = authorization' ∧
        userId = userId' := by
      have hmem := List.mem_of_getElem? hi
      rw [List.mem_singleton] at hmem
      cases hmem
      exact ⟨rfl, rfl, rfl⟩
    obtain ⟨id, t, rfl, -, -⟩ := signed_of_requireAuth hpass
    -- the token has been issued, so what it says is what it was signed for then
    obtain ⟨time', email, password, result, hmem, htoken⟩ := hkept id t rfl
    obtain ⟨j, hj⟩ := List.mem_iff_getElem?.mp hmem
    obtain ⟨hlt, -⟩ := List.getElem?_eq_some_iff.mp hj
    have hsign := (h.signed _ _ _ _ hmem).token
    rw [← htoken, hsign, requireAuth_sign] at hpass
    refine ⟨j, by omega, time', email, password, result, ?_, by rw [htoken], ?_⟩
    · rw [List.getElem?_append_left hlt]
      exact hj
    · split at hpass
      · rename_i hnow
        exact ⟨(Except.ok.inj hpass).symm, hnow⟩
      · cases hpass

/-- Nothing has happened yet. -/
theorem honest_start (clock : ℕ) (users : Users) :
    Honest scrypt jwt traffic (start clock users) where
  hashed := nofun
  found := nofun
  signed := nofun
  authentic := by
    intro i time authorization userId hi
    cases hi

section Steps

variable [DecidableEq P]

/-- What a registration does in one step. -/
theorem register_cases {backend : Backend} {email : String} {calls : P → Call}
    {auth auth' : State P} {p : P} (h : auth.step backend email calls p = some auth') :
    (∀ q, q ≠ p → auth'.phase q = auth.phase q) ∧
      (auth'.users.rows = auth.users.rows ∧
          ((∃ err, auth'.phase p = .rejected err) ∨ auth'.phase p = .createUser
            (hashPassword backend.scrypt (calls p).salt (calls p).password)) ∨
        ∃ passwordHash id, auth.phase p = .createUser passwordHash ∧
          auth'.phase p = .resolved ⟨id, email, backend.signAuthToken id⟩ ∧
          auth'.users.rows = auth.users.rows ++ [⟨id, email, passwordHash⟩]) := by
  have hupdate : ∀ ph : Phase, ∀ q, q ≠ p → Function.update auth.phase p ph q = auth.phase q :=
    fun ph q hq => Function.update_of_ne hq ph auth.phase
  unfold State.step at h
  split at h
  · obtain rfl : _ = auth' := Option.some.inj h
    refine ⟨hupdate _, .inl ⟨rfl, ?_⟩⟩
    simp only [Function.update_self]
    cases findUserByEmail auth.users email with
    | some user => exact .inl ⟨_, rfl⟩
    | none => exact .inr rfl
  · rename_i passwordHash hphase
    by_cases hmem : email ∈ auth.users.emails
    · simp only [createUser, hmem, dite_true] at h
      obtain rfl : _ = auth' := Option.some.inj h
      exact ⟨hupdate _, .inl ⟨rfl, .inl ⟨_, Function.update_self ..⟩⟩⟩
    · simp only [createUser, hmem, dite_false] at h
      obtain rfl : _ = auth' := Option.some.inj h
      exact ⟨hupdate _, .inr ⟨passwordHash, _, hphase, Function.update_self .., rfl⟩⟩
  · cases h
  · cases h

/-- No row is taken away. -/
theorem rows_register {backend : Backend} {email : String} {calls : P → Call}
    {auth auth' : State P} {p : P} (h : auth.step backend email calls p = some auth') {row : User}
    (hrow : row ∈ auth.users.rows) : row ∈ auth'.users.rows := by
  obtain ⟨-, ⟨hrows, -⟩ | ⟨_, _, -, -, hrows⟩⟩ := register_cases h
  · rwa [hrows]
  · rw [hrows]
    exact List.mem_append_left _ hrow

namespace Honest

variable (h : Honest scrypt jwt traffic s)

include h

theorem register {p : P} {auth : State P}
    (hs : s.auth.step ⟨scrypt, fun id => jwt.sign id s.clock⟩ (traffic.email p) traffic.calls p =
      some auth) :
    Honest scrypt jwt traffic { s with
      auth := auth
      log := s.log ++
        registered s.clock (traffic.email p) (traffic.calls p).password (auth.phase p) } := by
  obtain ⟨hother, hcases⟩ := register_cases hs
  refine h.append ?_ ?_ (fun _ => rows_register hs) ?_ ?_
  · intro q passwordHash hphase
    by_cases hq : q = p
    · subst hq
      obtain ⟨-, ⟨err, hp⟩ | hp⟩ | ⟨_, _, -, hp, -⟩ := hcases <;> rw [hp] at hphase <;>
        cases hphase
      rfl
    · rw [hother q hq] at hphase
      exact h.hashed q passwordHash hphase
  · intro l user hl
    obtain ⟨hrow, hemail⟩ := h.found l user hl
    exact ⟨rows_register hs hrow, hemail⟩
  · intro time email password result hmem
    obtain ⟨-, ⟨err, hp⟩ | hp⟩ | ⟨passwordHash, id, hbefore, hp, hrows⟩ := hcases <;>
      rw [hp] at hmem <;> simp only [registered, List.mem_singleton, List.not_mem_nil] at hmem
    · cases hmem
    · cases hmem
      refine ⟨le_rfl, rfl, ⟨id, traffic.email p, passwordHash⟩, ?_, rfl, rfl, ?_⟩
      · rw [hrows]
        exact List.mem_append_right _ (List.mem_singleton.mpr rfl)
      · -- the row has the hash of the password that this call has given
        rw [h.hashed p passwordHash hbefore]
        exact verifyPassword_hashPassword scrypt _ _
  · intro time authorization userId hmem
    obtain ⟨-, ⟨err, hp⟩ | hp⟩ | ⟨_, _, -, hp, -⟩ := hcases <;> rw [hp] at hmem <;>
      simp [registered] at hmem

variable [DecidableEq L]

/-- **The step lemma.** A registration and a log-in hand out tokens that are vouched for, and a
request that passes has one of those, since nobody else can sign. -/
theorem step {e : Event P L} (hs : s.step scrypt jwt traffic e = some s')
    (hkept : ∀ id time, e = .request (some ("Bearer " ++ jwt.sign id time)) →
      s.Issued (jwt.sign id time)) : Honest scrypt jwt traffic s' := by
  cases e with
  | tick d =>
    -- the tokens handed out only become older
    obtain rfl : _ = s' := Option.some.inj hs
    refine ⟨h.hashed, h.found, fun time email password result hmem => ?_, h.authentic⟩
    exact (h.signed time email password result hmem).mono (Nat.le_add_right _ _) fun _ => id
  | register p =>
    obtain ⟨auth, hauth, rfl⟩ := Option.map_eq_some_iff.mp hs
    exact h.register hauth
  | login l =>
    simp only [Sessions.step] at hs
    split at hs
    · -- the look-up: the row that is found has the e-mail
      obtain rfl : _ = s' := Option.some.inj hs
      refine ⟨h.hashed, fun l' user hl' => ?_, h.signed, h.authentic⟩
      by_cases hl : l' = l
      · subst hl
        dsimp only at hl'
        rw [Function.update_self] at hl'
        have hfound : findUserByEmail s.auth.users (traffic.logins l').email = some user :=
          LoginPhase.verifyPassword.inj hl'
        exact ⟨List.mem_of_find?_eq_some hfound, by simpa using List.find?_some hfound⟩
      · dsimp only at hl'
        rw [Function.update_of_ne hl] at hl'
        exact h.found l' user hl'
    · rename_i user hl
      -- the verification, against the row that was found then: rows are not taken away
      obtain rfl : _ = s' := Option.some.inj hs
      refine h.append h.hashed ?_ (fun _ => id) ?_ ?_
      · intro l' user' hl'
        by_cases heq : l' = l
        · subst heq
          rw [Function.update_self] at hl'
          cases hl'
        · rw [Function.update_of_ne heq] at hl'
          exact h.found l' user' hl'
      · intro time email password result hmem
        unfold loggedIn at hmem
        split at hmem
        · rename_i result' hresult
          rw [List.mem_singleton] at hmem
          cases hmem
          refine vouched_login ?_ hresult
          rintro row rfl
          exact h.found l row hl
        · simp at hmem
        · simp at hmem
      · intro time authorization userId hmem
        unfold loggedIn at hmem
        split at hmem <;> simp at hmem
    · cases hs
  | request authorization =>
    simp only [Sessions.step] at hs
    split at hs
    · rename_i userId hpass
      -- a request that passes adds no token of its own
      obtain rfl : _ = s' := Option.some.inj hs
      refine ⟨h.hashed, h.found, ?_, h.request hpass ?_⟩
      · intro time email password result hmem
        refine h.signed time email password result ?_
        obtain hmem | hmem := List.mem_append.mp hmem
        · exact hmem
        · cases List.mem_singleton.mp hmem
      · rintro id time rfl
        exact hkept id time rfl
    · -- one that is refused adds nothing but its refusal
      obtain rfl : _ = s' := Option.some.inj hs
      refine h.append h.hashed h.found (fun _ => id) ?_ ?_
      · intro time email password result hmem
        cases List.mem_singleton.mp hmem
      · intro time authorization userId hmem
        cases List.mem_singleton.mp hmem

/-- **The run lemma.** -/
theorem run {es : List (Event P L)} (hrun : s.run scrypt jwt traffic es = some s')
    (hkept : s.SecretKept scrypt jwt traffic es) : Honest scrypt jwt traffic s' := by
  induction es generalizing s with
  | nil =>
    obtain rfl : s = s' := Option.some.inj hrun
    exact h
  | cons e es ih =>
    obtain ⟨s₁, hs, hrun⟩ := Option.bind_eq_some_iff.mp hrun
    exact ih (h.step hs hkept.1) hrun (hkept.2 s₁ hs)

end Honest

/-- **Who a request acts for.** In every run in which nobody else has the secret, a request that
`requireAuth` lets pass carries a token that a call of `registerUser` or `loginUser` got before, not
longer ago than the lifetime. The id is that of a row with the e-mail of the call, and the password
of the call is right for it. -/
theorem authentic_of_run [DecidableEq L] {clock : ℕ} {users : Users} {es : List (Event P L)}
    (hrun : (start clock users).run scrypt jwt traffic es = some s)
    (hkept : (start clock users).SecretKept scrypt jwt traffic es) {i time : ℕ}
    {authorization : Option String} {userId : N}
    (hi : s.log[i]? = some (.acting time authorization userId)) :
    ∃ j < i, ∃ time' email password, ∃ result : Registered,
      s.log[j]? = some (.signedIn time' email password result) ∧
        authorization = some ("Bearer " ++ result.token) ∧ time < time' + jwt.lifetime ∧
        ∃ row ∈ s.auth.users.rows, userId = row.id ∧ row.email = email ∧
          (verifyPassword scrypt password row.passwordHash).result = .ok true := by
  have h : Honest scrypt jwt traffic s := (honest_start clock users).run hrun hkept
  obtain ⟨j, hj, time', email, password, result, hsigned, hauth, rfl, htime⟩ :=
    h.authentic i time authorization userId hi
  obtain ⟨row, hrow, hid, hemail, hright⟩ :=
    (h.signed _ _ _ _ (List.mem_of_getElem? hsigned)).row
  exact ⟨j, hj, time', email, password, result, hsigned, hauth, htime, row, hrow, by rw [hid],
    hemail, hright⟩

end Steps

/-! ### One registration, one request -/

/-- A token that is its content. -/
def plainToken (id time : ℕ) : String :=
  String.ofList (List.replicate id 'u' ++ List.replicate time 't')

theorem count_plainToken (id time : ℕ) : (plainToken id time).toList.count 'u' = id ∧
    (plainToken id time).toList.count 't' = time := by
  simp [plainToken, List.count_replicate]

/-- Tokens without a signature, which last a minute. -/
def plainJwt : Jwt ℕ where
  lifetime := 60
  sign := plainToken
  verify token now :=
    let id := token.toList.count 'u'
    let time := token.toList.count 't'
    if token = plainToken id time then
      if now < time + 60 then
        .ok (.object [("userId", .number id), ("iat", .number time), ("exp", .number (time + 60))])
      else .error .tokenExpired
    else .error (.jsonWebToken "invalid token")
  verify_sign id time now := by
    obtain ⟨hid, htime⟩ := count_plainToken id time
    simp [hid, htime]
  signed_of_verify token now decoded h := by
    dsimp only at h
    split at h
    · rename_i heq
      exact ⟨_, _, heq⟩
    · cases h

/-- One caller who registers. -/
def oneCaller : Traffic Unit Unit where
  email _ := "a@b.c"
  calls _ := ⟨"password", ⟨List.replicate 16 0, rfl⟩⟩
  logins _ := ⟨"a@b.c", "password"⟩

/-- The caller registers and uses its token. -/
def oneRequest : List (Event Unit Unit) :=
  [.register (), .tick 5, .register (), .tick 5, .request (some ("Bearer " ++ plainToken 1 5))]

def registeredCaller : Registered := ⟨1, "a@b.c", plainToken 1 5⟩

theorem run_oneRequest : ∃ s s' : Sessions ℕ Unit Unit,
    (start 0 noUsers).run (.constant []) plainJwt oneCaller
      [.register (), .tick 5, .register (), .tick 5] = some s ∧
    (start 0 noUsers).run (.constant []) plainJwt oneCaller oneRequest = some s' ∧
    s.log = [.signedIn 5 "a@b.c" "password" registeredCaller] ∧
    s'.log = s.log ++ [.acting 10 (some ("Bearer " ++ plainToken 1 5)) 1] := by
  have hpass : requireAuth plainJwt (some ("Bearer " ++ plainToken 1 5)) 10 = .ok 1 :=
    requireAuth_sign plainJwt 1 5 10
  obtain ⟨s, hrun, hclock, hlog⟩ : ∃ s : Sessions ℕ Unit Unit,
      (start 0 noUsers).run (.constant []) plainJwt oneCaller
        [.register (), .tick 5, .register (), .tick 5] = some s ∧ s.clock = 10 ∧
        s.log = [.signedIn 5 "a@b.c" "password" registeredCaller] :=
    ⟨_, rfl, rfl, rfl⟩
  refine ⟨s, { s with log := s.log ++
    [.acting 10 (some ("Bearer " ++ plainToken 1 5)) 1] }, hrun, ?_, hlog, rfl⟩
  have hstep : s.step (.constant []) plainJwt oneCaller
      (.request (some ("Bearer " ++ plainToken 1 5))) = some { s with log := s.log ++
        [.acting 10 (some ("Bearer " ++ plainToken 1 5)) 1] } := by
    simp only [step, hclock, hpass]
  unfold run at hrun ⊢
  rw [show oneRequest = [.register (), .tick 5, .register (), .tick 5] ++
    [.request (some ("Bearer " ++ plainToken 1 5))] from rfl, List.foldlM_append, hrun]
  show (s.step _ _ _ _).bind some = _
  rw [hstep, Option.bind_some]

/-- The only token that is presented has been handed out. -/
theorem secretKept_oneRequest :
    (start 0 noUsers).SecretKept (.constant []) plainJwt oneCaller oneRequest := by
  obtain ⟨s, -, hrun, -, hlog, -⟩ := run_oneRequest
  have hissued : ∀ id time, Event.request (P := Unit) (L := Unit)
      (some ("Bearer " ++ plainToken 1 5)) =
        .request (some ("Bearer " ++ plainToken id time)) → s.Issued (plainToken id time) := by
    intro id time heq
    have htoken : plainToken 1 5 = plainToken id time := by
      have h := congrArg String.toList (Option.some.inj (Event.request.inj heq))
      rw [String.toList_append, String.toList_append] at h
      exact String.toList_inj.mp (List.append_cancel_left h)
    rw [← htoken]
    exact ⟨5, _, _, registeredCaller, by rw [hlog]; exact List.mem_cons_self, rfl⟩
  refine ⟨nofun, fun s₁ h₁ => ⟨nofun, fun s₂ h₂ => ⟨nofun, fun s₃ h₃ => ⟨nofun, fun s₄ h₄ => ?_⟩⟩⟩⟩
  have hs : s = s₄ := by
    unfold run at hrun
    simp only [List.foldlM_cons, h₁, h₂, h₃, h₄, Option.bind_eq_bind, Option.bind_some,
      List.foldlM_nil, Option.pure_def, Option.some.injEq] at hrun
    exact hrun.symm
  subst hs
  exact ⟨hissued, fun _ _ => trivial⟩

/-- The request acts for the row that has been registered. -/
theorem authentic_of_run_oneRequest : ∃ s : Sessions ℕ Unit Unit,
    (start 0 noUsers).run (.constant []) plainJwt oneCaller oneRequest = some s ∧
      ∃ j < 1, ∃ time' email password, ∃ result : Registered,
        s.log[j]? = some (.signedIn time' email password result) ∧
          some ("Bearer " ++ plainToken 1 5) = some ("Bearer " ++ result.token) ∧
          10 < time' + 60 ∧
          ∃ row ∈ s.auth.users.rows, 1 = row.id ∧ row.email = email ∧
            (verifyPassword (.constant []) password row.passwordHash).result = .ok true := by
  obtain ⟨s, s', -, hrun, hlog, hlog'⟩ := run_oneRequest
  refine ⟨s', hrun, authentic_of_run hrun secretKept_oneRequest (i := 1) ?_⟩
  rw [hlog', hlog]
  rfl

/-! ### Log-ins look alike at all times -/

section Uniform

variable [DecidableEq P]

/-- Every hash that is in the table or on its way there is one of `hashPassword`. -/
structure Hashed (s : Sessions N P L) : Prop where
  rows : WellHashed s.auth.users
  phases : ∀ p passwordHash, s.auth.phase p = .createUser passwordHash → Stored passwordHash

omit [NatCast N] in
theorem Hashed.register {backend : Backend} {email : String} {calls : P → Call} {p : P}
    {auth : State P} (h : Hashed s) (hs : s.auth.step backend email calls p = some auth)
    (log : List (Entry N)) : Hashed { s with auth := auth, log := log } := by
  obtain ⟨hother, hcases⟩ := register_cases hs
  refine ⟨?_, fun q passwordHash hphase => ?_⟩
  · intro row hrow
    obtain ⟨hrows, -⟩ | ⟨passwordHash, id, hbefore, -, hrows⟩ := hcases <;> dsimp only at hrow <;>
      rw [hrows] at hrow
    · exact h.rows row hrow
    · obtain hrow | hrow := List.mem_append.mp hrow
      · exact h.rows row hrow
      · rw [List.mem_singleton.mp hrow]
        exact h.phases p passwordHash hbefore
  · dsimp only at hphase
    by_cases hq : q = p
    · subst hq
      obtain ⟨-, ⟨err, hp⟩ | hp⟩ | ⟨_, _, -, hp, -⟩ := hcases <;> rw [hp] at hphase <;>
        cases hphase
      exact stored_hashPassword _ _ _
    · rw [hother q hq] at hphase
      exact h.phases q passwordHash hphase

theorem Hashed.step [DecidableEq L] {e : Event P L} (h : Hashed s)
    (hs : s.step scrypt jwt traffic e = some s') : Hashed s' := by
  cases e with
  | tick d =>
    obtain rfl : _ = s' := Option.some.inj hs
    exact ⟨h.rows, h.phases⟩
  | register p =>
    obtain ⟨auth, hauth, rfl⟩ := Option.map_eq_some_iff.mp hs
    exact h.register hauth _
  | login l =>
    simp only [Sessions.step] at hs
    split at hs
    · obtain rfl : _ = s' := Option.some.inj hs
      exact ⟨h.rows, h.phases⟩
    · obtain rfl : _ = s' := Option.some.inj hs
      exact ⟨h.rows, h.phases⟩
    · cases hs
  | request authorization =>
    simp only [Sessions.step] at hs
    split at hs <;> (obtain rfl : _ = s' := Option.some.inj hs; exact ⟨h.rows, h.phases⟩)

/-- **Log-ins look alike.** In every state of every run, a log-in with any e-mail and password makes
one call of `scrypt`, whose cost depends on the password alone. It succeeds exactly if the e-mail is
registered and the password right, and else it is answered in one way. -/
theorem uniform_of_run [DecidableEq L] {clock : ℕ} {users : Users} {es : List (Event P L)}
    (husers : WellHashed users) (hrun : (start clock users).run scrypt jwt traffic es = some s)
    (email password : String) :
    (loginUser scrypt (fun id => jwt.sign id s.clock) s.auth.users email password).calls =
        [⟨password, saltLength, keyLength⟩] ∧
      ((∃ user, findUserByEmail s.auth.users email = some user ∧
          (verifyPassword scrypt password user.passwordHash).result = .ok true ∧
          (loginUser scrypt (fun id => jwt.sign id s.clock) s.auth.users email password).result =
            .ok (.ok ⟨user.id, user.email, jwt.sign user.id s.clock⟩)) ∨
        (∀ user, findUserByEmail s.auth.users email = some user →
          (verifyPassword scrypt password user.passwordHash).result = .ok false) ∧
          (loginUser scrypt (fun id => jwt.sign id s.clock) s.auth.users email password).result =
            .ok (.error .invalidCredentials)) := by
  have h : Hashed s := Runs.foldlM_induction hrun ⟨husers, nofun⟩ fun _ _ _ _ hs h => h.step hs
  exact h.rows.login_uniform scrypt _ email password

end Uniform

/-- After the caller has registered. -/
theorem uniform_of_run_oneRequest : ∃ s : Sessions ℕ Unit Unit,
    (start 0 noUsers).run (.constant []) plainJwt oneCaller oneRequest = some s ∧
      (loginUser (.constant []) (fun id => plainToken id s.clock) s.auth.users "a@b.c"
        "other").calls = [⟨"other", saltLength, keyLength⟩] ∧
      ((∃ user, findUserByEmail s.auth.users "a@b.c" = some user ∧
          (verifyPassword (.constant []) "other" user.passwordHash).result = .ok true ∧
          (loginUser (.constant []) (fun id => plainToken id s.clock) s.auth.users "a@b.c"
            "other").result = .ok (.ok ⟨user.id, user.email, plainToken user.id s.clock⟩)) ∨
        (∀ user, findUserByEmail s.auth.users "a@b.c" = some user →
          (verifyPassword (.constant []) "other" user.passwordHash).result = .ok false) ∧
          (loginUser (.constant []) (fun id => plainToken id s.clock) s.auth.users "a@b.c"
            "other").result = .ok (.error .invalidCredentials)) := by
  obtain ⟨_, s, -, hrun, -, -⟩ := run_oneRequest
  exact ⟨s, hrun, uniform_of_run (fun _ hrow => absurd hrow List.not_mem_nil) hrun _ _⟩

end Sessions

end ScalableBooking.Auth
