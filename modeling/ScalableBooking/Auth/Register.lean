import Mathlib.Algebra.Order.BigOperators.Group.Finset
import Mathlib.Data.Fintype.Basic
import Mathlib.Data.List.Nodup
import Mathlib.Logic.ExistsUnique
import Mathlib.Logic.Function.Basic
import ScalableBooking.Auth.Password

/-!
# Registration

`registerUser` looks the e-mail up, and inserts a row if there is none. Between the two, other
calls come, and the unique constraint on the e-mails lets one `INSERT` pass. The others fail, and
the use case means to take this failure for what it is. But it looks for the code of the driver's
error on the error that it catches, and this is one of drizzle, which has the driver's as its
`cause`. So such a call is answered with an internal error (`lost_race`).

In any case one call resolves and one row is there. All others reject as they should if and only
if every `INSERT` comes before a row with the e-mail is there (`exact_iff_of_run`).
-/

namespace ScalableBooking.Auth

/-! ### The table -/

/-- A row of `users`. -/
structure User where
  id : ℕ
  email : String
  passwordHash : List Char
deriving DecidableEq, Repr

/-- The table `users`, with the next value of its sequence. -/
structure Users where
  rows : List User
  nextId : ℕ
  emails_nodup : (rows.map User.email).Nodup
  id_lt : ∀ row ∈ rows, row.id < nextId

namespace Users

/-- The e-mails that are registered. -/
def emails (users : Users) : List String := users.rows.map User.email

/-- A new row, whose e-mail is not registered. -/
def push (users : Users) (email : String) (passwordHash : List Char) (h : email ∉ users.emails) :
    Users where
  rows := users.rows ++ [⟨users.nextId, email, passwordHash⟩]
  nextId := users.nextId + 1
  emails_nodup := by
    rw [List.map_append]
    refine List.nodup_append.mpr ⟨users.emails_nodup, List.nodup_singleton email, ?_⟩
    rintro a ha b hb rfl
    have heq : a = email := List.mem_singleton.mp hb
    exact h (heq ▸ ha)
  id_lt row hrow := by
    rcases List.mem_append.mp hrow with hrow | hrow
    · exact Nat.lt_succ_of_lt (users.id_lt row hrow)
    · rw [List.mem_singleton.mp hrow]
      exact Nat.lt_succ_self _

/-- An `INSERT` that fails leaves a gap in the sequence. -/
def skip (users : Users) : Users where
  rows := users.rows
  nextId := users.nextId + 1
  emails_nodup := users.emails_nodup
  id_lt row hrow := Nat.lt_succ_of_lt (users.id_lt row hrow)

@[simp] theorem emails_push (users : Users) {email : String} (passwordHash : List Char)
    (h : email ∉ users.emails) :
    (users.push email passwordHash h).emails = users.emails ++ [email] := by
  simp [emails, push]

@[simp] theorem emails_skip (users : Users) : users.skip.emails = users.emails := rfl

end Users

/-! ### Errors -/

/-- What is thrown: an `AppError`, an error of the driver with the code of the database, an error
of drizzle with its cause, one of zod, or one of Fastify. -/
inductive Thrown where
  | app (message : String) (statusCode : ℕ) (code : String)
  | database (code : String)
  | drizzleQuery (cause : Thrown)
  | zod (pretty : String)
  | fastify (message : String) (statusCode : ℕ) (code : String)
deriving DecidableEq, Repr

namespace Thrown

/-- The property `code`, of those that have it. -/
def code? : Thrown → Option String
  | app _ _ code | database code | fastify _ _ code => some code
  | drizzleQuery _ | zod _ => none

/-- `EmailAlreadyRegisteredError`. -/
def emailAlreadyRegistered : Thrown :=
  .app "Email is already registered" 409 "EMAIL_ALREADY_REGISTERED"

/-- The error of a query that violates a unique constraint. -/
def uniqueViolation : Thrown := .drizzleQuery (.database "23505")

end Thrown

/-- What a client is answered. -/
structure Reply where
  status : ℕ
  code : String
  message : String
deriving DecidableEq, Repr

/-- `errorHandler`. -/
def errorHandler : Thrown → Reply
  | .app message statusCode code => ⟨statusCode, code, message⟩
  | .zod pretty => ⟨400, "VALIDATION_ERROR", pretty⟩
  | .fastify message statusCode _ =>
      if statusCode = 400 then ⟨400, "VALIDATION_ERROR", message⟩
      else ⟨500, "INTERNAL_SERVER_ERROR", "Something went wrong"⟩
  | .database _ | .drizzleQuery _ => ⟨500, "INTERNAL_SERVER_ERROR", "Something went wrong"⟩

/-! ### The use case -/

/-- `findUserByEmail`. -/
def findUserByEmail (users : Users) (email : String) : Option User :=
  users.rows.find? fun row => row.email = email

/-- `createUser`. -/
def createUser (users : Users) (email : String) (passwordHash : List Char) :
    Except Thrown User × Users :=
  if h : email ∈ users.emails then (.error .uniqueViolation, users.skip)
  else (.ok ⟨users.nextId, email, passwordHash⟩, users.push email passwordHash h)

/-- The `catch` around `createUser`. -/
def translate (err : Thrown) : Thrown :=
  if err.code? = some "23505" then .emailAlreadyRegistered else err

/-- What `registerUser` returns. -/
structure Registered where
  id : ℕ
  email : String
  token : String
deriving DecidableEq, Repr

/-- Where a call of `registerUser` stands: before one of its queries, or at its end. -/
inductive Phase where
  | findUserByEmail
  | createUser (passwordHash : List Char)
  | resolved (result : Registered)
  | rejected (err : Thrown)
deriving DecidableEq

namespace Phase

/-- The call has ended. -/
def Ended : Phase → Prop
  | resolved _ | rejected _ => True
  | findUserByEmail | createUser _ => False

def Resolved : Phase → Prop
  | resolved _ => True
  | _ => False

end Phase

/-- What the calls use besides the table. -/
structure Backend where
  scrypt : Scrypt
  signAuthToken : ℕ → String

/-- A call, with the salt that it draws. -/
structure Call where
  password : String
  salt : Salt

/-- The table, and the calls for one e-mail. -/
structure State (P : Type) where
  users : Users
  phase : P → Phase

namespace State

variable {P : Type} [DecidableEq P]

omit [DecidableEq P] in
/-- No call has begun. -/
def start (users : Users) : State P where
  users
  phase _ := .findUserByEmail

/-- A call makes its next step. -/
def step (backend : Backend) (email : String) (calls : P → Call) (s : State P) (p : P) :
    Option (State P) :=
  match s.phase p with
  | .findUserByEmail =>
      let ph := match findUserByEmail s.users email with
        | some _ => .rejected .emailAlreadyRegistered
        | none => .createUser (hashPassword backend.scrypt (calls p).salt (calls p).password)
      some { s with phase := Function.update s.phase p ph }
  | .createUser passwordHash =>
      let (result, users) := createUser s.users email passwordHash
      let ph := match result with
        | .ok user => .resolved ⟨user.id, user.email, backend.signAuthToken user.id⟩
        | .error err => .rejected (translate err)
      some { users, phase := Function.update s.phase p ph }
  | .resolved _ | .rejected _ => none

/-- A run: which call makes a step, one after another. -/
def run (backend : Backend) (email : String) (calls : P → Call) (s : State P) :
    List P → Option (State P)
  | [] => some s
  | p :: ps => (s.step backend email calls p).bind fun s' => s'.run backend email calls ps

/-- The call would insert a second row with the e-mail. -/
def Late (email : String) (s : State P) (p : P) : Prop :=
  (∃ passwordHash, s.phase p = .createUser passwordHash) ∧ email ∈ s.users.emails

/-- No `INSERT` of the run comes late. -/
def NoneLate (backend : Backend) (email : String) (calls : P → Call) (s : State P) :
    List P → Prop
  | [] => True
  | p :: ps => ¬s.Late email p ∧
      ∀ s', s.step backend email calls p = some s' → s'.NoneLate backend email calls ps

end State

/-! ### Runs -/

/-- What should come of the calls: one row, one call that resolves, and the others answered with
a conflict. -/
structure Exact {P : Type} (email : String) (s : State P) : Prop where
  one_row : s.users.emails.count email = 1
  one_resolves : ∃! p, (s.phase p).Resolved
  others : ∀ p, ¬(s.phase p).Resolved → ∃ err, s.phase p = .rejected err ∧
    err = .emailAlreadyRegistered ∧ (errorHandler err).status = 409

theorem findUserByEmail_eq_none {users : Users} {email : String} :
    findUserByEmail users email = none ↔ email ∉ users.emails := by
  simp [findUserByEmail, Users.emails]

section Runs

variable {P : Type} [DecidableEq P] {backend : Backend} {email : String} {calls : P → Call}
  {s s' : State P} {ps : List P} {p : P}

/-- What a step does: a call finds the e-mail or does not, and it inserts its row or is late. -/
theorem State.step_cases (hs : s.step backend email calls p = some s') :
    (s.phase p = .findUserByEmail ∧ s'.users = s.users ∧
      (email ∈ s.users.emails ∧
          s'.phase = Function.update s.phase p (.rejected .emailAlreadyRegistered) ∨
        email ∉ s.users.emails ∧ ∃ passwordHash,
          s'.phase = Function.update s.phase p (.createUser passwordHash))) ∨
    ((∃ passwordHash, s.phase p = .createUser passwordHash) ∧
      (s.Late email p ∧ s'.users.emails = s.users.emails ∧
          s'.phase = Function.update s.phase p (.rejected .uniqueViolation) ∨
        ¬s.Late email p ∧ email ∉ s.users.emails ∧ s'.users.emails = s.users.emails ++ [email] ∧
          ∃ result, s'.phase = Function.update s.phase p (.resolved result))) := by
  unfold State.step at hs
  split at hs
  · rename_i hphase
    refine .inl ⟨hphase, ?_⟩
    cases hfound : findUserByEmail s.users email with
    | none =>
      rw [hfound] at hs
      cases hs
      exact ⟨rfl, .inr ⟨findUserByEmail_eq_none.mp hfound, _, rfl⟩⟩
    | some row =>
      rw [hfound] at hs
      cases hs
      have hmem : email ∈ s.users.emails := by
        by_contra hmem
        rw [findUserByEmail_eq_none.mpr hmem] at hfound
        cases hfound
      exact ⟨rfl, .inl ⟨hmem, rfl⟩⟩
  · rename_i passwordHash hphase
    refine .inr ⟨⟨passwordHash, hphase⟩, ?_⟩
    by_cases hmem : email ∈ s.users.emails
    · -- another call has inserted the row since the look-up
      simp only [createUser, hmem, dite_true] at hs
      cases hs
      exact .inl ⟨⟨⟨passwordHash, hphase⟩, hmem⟩, rfl, rfl⟩
    · simp only [createUser, hmem, dite_false] at hs
      cases hs
      exact .inr ⟨fun hlate => hmem hlate.2, hmem, Users.emails_push s.users passwordHash hmem,
        _, rfl⟩
  · cases hs
  · cases hs

/-- A call can make a step as long as it has not ended. -/
theorem State.isSome_step : (s.step backend email calls p).isSome ↔ ¬(s.phase p).Ended := by
  unfold State.step
  split <;> rename_i hphase <;> simp [hphase, Phase.Ended]

/-- How many steps a call has left, at most. -/
def Phase.left : Phase → ℕ
  | findUserByEmail => 2
  | createUser _ => 1
  | resolved _ | rejected _ => 0

theorem State.left_step (hs : s.step backend email calls p = some s') :
    ∃ ph, s'.phase = Function.update s.phase p ph ∧ ph.left < (s.phase p).left := by
  rcases State.step_cases hs with
    ⟨hp, -, ⟨-, hphase⟩ | ⟨-, passwordHash, hphase⟩⟩ |
    ⟨⟨passwordHash, hp⟩, ⟨-, -, hphase⟩ | ⟨-, -, -, result, hphase⟩⟩ <;>
  exact ⟨_, hphase, by simp [hp, Phase.left]⟩

/-- So finitely many calls come to their ends. -/
theorem State.length_le_of_run [Fintype P]
    (hrun : s.run backend email calls ps = some s') :
    ps.length ≤ ∑ p, (s.phase p).left := by
  induction ps generalizing s with
  | nil => exact Nat.zero_le _
  | cons p ps ih =>
    obtain ⟨s₁, hs, hrun⟩ := Option.bind_eq_some_iff.mp hrun
    obtain ⟨ph, hphase, hleft⟩ := State.left_step hs
    -- only the call that steps has less left, and it has
    have hlt : ∑ q, (s₁.phase q).left < ∑ q, (s.phase q).left := by
      refine Finset.sum_lt_sum ?_ ⟨p, Finset.mem_univ p, ?_⟩
      · intro q _
        rw [hphase]
        by_cases hq : q = p
        · subst hq
          rw [Function.update_self]
          exact hleft.le
        · rw [Function.update_of_ne hq]
      · rw [hphase, Function.update_self]
        exact hleft
    exact Nat.succ_le_of_lt ((ih hrun).trans_lt hlt)

/-- What is true of a call neither before its step nor after is true of the same calls. -/
theorem update_iff {Q : Phase → Prop} {ph : Phase} (hp : ¬Q (s.phase p)) (hph : ¬Q ph) (q : P) :
    Q (Function.update s.phase p ph q) ↔ Q (s.phase q) := by
  by_cases hq : q = p
  · subst hq
    rw [Function.update_self]
    exact iff_of_false hph hp
  · rw [Function.update_of_ne hq]

/-- What holds all along: no call has ended and no row is there, or one has resolved and one row
is there, and the others reject with one of two errors. -/
structure Settling (email : String) (s : State P) : Prop where
  winner : email ∉ s.users.emails ∧ (∀ p, ¬(s.phase p).Ended) ∨
    email ∈ s.users.emails ∧ ∃! p, (s.phase p).Resolved
  losers : ∀ p err, s.phase p = .rejected err →
    err = .emailAlreadyRegistered ∨ err = .uniqueViolation

namespace Settling

omit [DecidableEq P] in
theorem start {users : Users} (h : email ∉ users.emails) :
    Settling email (State.start users : State P) :=
  ⟨.inl ⟨h, fun _ => id⟩, by rintro p err ⟨⟩⟩

/-- A call rejects after the row is there. -/
theorem reject (h : Settling email s) {err : Thrown} (hp : ¬(s.phase p).Ended)
    (herr : err = .emailAlreadyRegistered ∨ err = .uniqueViolation) (hmem : email ∈ s.users.emails)
    (hemails : s'.users.emails = s.users.emails)
    (hphase : s'.phase = Function.update s.phase p (.rejected err)) : Settling email s' := by
  have hresolved (q : P) : (s'.phase q).Resolved ↔ (s.phase q).Resolved := by
    rw [hphase]
    refine update_iff (Q := Phase.Resolved) ?_ id q
    intro hres
    cases hq : s.phase p <;> simp [hq, Phase.Resolved, Phase.Ended] at hres hp
  refine ⟨.inr ?_, ?_⟩
  · -- the one who has been answered is still the only one
    rw [hemails, existsUnique_congr hresolved]
    exact ⟨hmem, (h.winner.resolve_left fun hnone => hnone.1 hmem).2⟩
  · intro q err' hq
    rw [hphase] at hq
    by_cases hqp : q = p
    · subst hqp
      rw [Function.update_self] at hq
      cases hq
      exact herr
    · rw [Function.update_of_ne hqp] at hq
      exact h.losers q err' hq

theorem step (h : Settling email s) (hs : s.step backend email calls p = some s') :
    Settling email s' := by
  rcases State.step_cases hs with
    ⟨hp, husers, ⟨hmem, hphase⟩ | ⟨hmem, passwordHash, hphase⟩⟩ |
    ⟨⟨passwordHash, hp⟩, ⟨hlate, hemails, hphase⟩ | ⟨-, hmem, hemails, result, hphase⟩⟩
  · exact h.reject (by simp [hp, Phase.Ended]) (.inl rfl) hmem (congrArg Users.emails husers) hphase
  · have hnone := (h.winner.resolve_right fun hone => hmem hone.1).2
    have hended (q : P) : ¬(s'.phase q).Ended := by
      rw [hphase, update_iff (Q := Phase.Ended) (hnone p) id]
      exact hnone q
    refine ⟨.inl ⟨husers ▸ hmem, hended⟩, ?_⟩
    intro q err hq
    have hend := hended q
    rw [hq] at hend
    exact absurd trivial hend
  · exact h.reject (by simp [hp, Phase.Ended]) (.inr rfl) hlate.2 hemails hphase
  · -- the first row: no call has ended before
    have hnone := (h.winner.resolve_right fun hone => hmem hone.1).2
    have hother {q : P} (hq : q ≠ p) : s'.phase q = s.phase q := by
      rw [hphase, Function.update_of_ne hq]
    have hself : s'.phase p = .resolved result := by
      rw [hphase, Function.update_self]
    refine ⟨.inr ⟨?_, p, ?_, ?_⟩, ?_⟩
    · rw [hemails]
      exact List.mem_append_right _ List.mem_cons_self
    · simp [hself, Phase.Resolved]
    · intro q hq
      by_contra hqp
      rw [hother hqp] at hq
      refine hnone q ?_
      cases hphase' : s.phase q <;> simp [hphase', Phase.Resolved, Phase.Ended] at hq ⊢
    · intro q err hq
      by_cases hqp : q = p
      · subst hqp
        rw [hself] at hq
        cases hq
      · rw [hother hqp] at hq
        exact h.losers q err hq

theorem run (h : Settling email s) (hrun : s.run backend email calls ps = some s') :
    Settling email s' := by
  induction ps generalizing s with
  | nil =>
    cases hrun
    exact h
  | cons p ps ih =>
    obtain ⟨s₁, hs, hrun⟩ := Option.bind_eq_some_iff.mp hrun
    exact ih (h.step hs) hrun

end Settling

/-- A call has been answered with an internal error. -/
def State.Lost (s : State P) : Prop := ∃ p, s.phase p = .rejected .uniqueViolation

/-- A step makes a call lose if it is late. -/
theorem State.lost_step (hs : s.step backend email calls p = some s') :
    s'.Lost ↔ s.Lost ∨ s.Late email p := by
  have hsame {ph : Phase} (hp : s.phase p ≠ .rejected .uniqueViolation)
      (hph : ph ≠ .rejected .uniqueViolation) (hphase : s'.phase = Function.update s.phase p ph)
      (hlate : ¬s.Late email p) : s'.Lost ↔ s.Lost ∨ s.Late email p := by
    rw [or_iff_left hlate, State.Lost, hphase]
    exact exists_congr (update_iff (Q := (· = .rejected .uniqueViolation)) hp hph)
  rcases State.step_cases hs with
    ⟨hp, -, ⟨-, hphase⟩ | ⟨-, passwordHash, hphase⟩⟩ |
    ⟨⟨passwordHash, hp⟩, ⟨hlate, -, hphase⟩ | ⟨hlate, -, -, result, hphase⟩⟩
  · exact hsame (by simp [hp]) (by decide) hphase (by simp [Late, hp])
  · exact hsame (by simp [hp]) (by simp) hphase (by simp [Late, hp])
  · refine iff_of_true ⟨p, ?_⟩ (.inr hlate)
    rw [hphase, Function.update_self]
  · exact hsame (by simp [hp]) (by simp) hphase hlate

theorem State.noneLate_cons (hs : s.step backend email calls p = some s') :
    s.NoneLate backend email calls (p :: ps) ↔
      ¬s.Late email p ∧ s'.NoneLate backend email calls ps := by
  refine and_congr_right fun _ => ⟨fun h => h s' hs, ?_⟩
  intro h s'' hs''
  cases hs.symm.trans hs''
  exact h

theorem State.lost_run (hrun : s.run backend email calls ps = some s') :
    s'.Lost ↔ s.Lost ∨ ¬s.NoneLate backend email calls ps := by
  induction ps generalizing s with
  | nil =>
    cases hrun
    simp [NoneLate]
  | cons p ps ih =>
    obtain ⟨s₁, hs, hrun⟩ := Option.bind_eq_some_iff.mp hrun
    rw [ih hrun, State.lost_step hs, State.noneLate_cons hs, not_and_or, not_not, or_assoc]

/-- When all calls have ended, one of them has resolved and one row is there. -/
theorem one_of_run [Nonempty P] {users : Users} (hemail : email ∉ users.emails)
    (hrun : (State.start users).run backend email calls ps = some s)
    (hended : ∀ p, (s.phase p).Ended) :
    s.users.emails.count email = 1 ∧ ∃! p, (s.phase p).Resolved := by
  have h := (Settling.start hemail).run hrun
  obtain ⟨p⟩ := ‹Nonempty P›
  obtain ⟨hmem, hone⟩ := h.winner.resolve_left fun hnone => hnone.2 p (hended p)
  exact ⟨List.count_eq_one_of_mem s.users.emails_nodup hmem, hone⟩

/-- When all calls have ended, all is as it should be if and only if no `INSERT` came late. -/
theorem exact_iff_of_run [Nonempty P] {users : Users} (hemail : email ∉ users.emails)
    (hrun : (State.start users).run backend email calls ps = some s)
    (hended : ∀ p, (s.phase p).Ended) :
    Exact email s ↔ (State.start users).NoneLate backend email calls ps := by
  have h := (Settling.start hemail).run hrun
  obtain ⟨hone, hresolves⟩ := one_of_run hemail hrun hended
  have hlost : s.Lost ↔ ¬(State.start users).NoneLate backend email calls ps := by
    rw [State.lost_run hrun, or_iff_right]
    rintro ⟨p, ⟨⟩⟩
  rw [← not_iff_not, ← hlost]
  constructor
  · intro hnot
    by_contra hnone
    refine hnot ⟨hone, hresolves, ?_⟩
    intro p hp
    cases hphase : s.phase p with
    | rejected err =>
      rcases h.losers p err hphase with rfl | rfl
      · exact ⟨_, rfl, rfl, rfl⟩
      · -- a violation of the constraint would be one that got lost
        exact absurd ⟨p, hphase⟩ hnone
    | resolved result =>
      rw [hphase] at hp
      exact absurd trivial hp
    | _ =>
      have hend := hended p
      rw [hphase] at hend
      exact hend.elim
  · rintro ⟨p, hp⟩ hexact
    obtain ⟨err, herr, rfl, -⟩ := hexact.others p (by simp [hp, Phase.Resolved])
    rw [hp] at herr
    cases herr

end Runs

/-! ### Two calls -/

/-- Nobody has registered. -/
def noUsers : Users where
  rows := []
  nextId := 1
  emails_nodup := List.nodup_nil
  id_lt _ hrow := absurd hrow List.not_mem_nil

def oneBackend : Backend where
  scrypt := .constant []
  signAuthToken := toString

def twoCalls (_ : Bool) : Call where
  password := "password"
  salt := ⟨List.replicate saltLength 0, List.length_replicate⟩

/-- The calls come one after the other. -/
theorem exact_iff_of_run_twoCalls : ∃ s : State Bool,
    (State.start noUsers).run oneBackend "a@b.c" twoCalls [false, false, true] = some s ∧
      Exact "a@b.c" s := by
  have hrun : (State.start noUsers).run oneBackend "a@b.c" twoCalls [false, false, true] =
    some _ := rfl
  refine ⟨_, hrun, ?_⟩
  refine (exact_iff_of_run List.not_mem_nil hrun ?_).mpr ?_
  · rintro (_ | _) <;> trivial
  · refine (State.noneLate_cons rfl).mpr ⟨?_, (State.noneLate_cons rfl).mpr ⟨?_,
      (State.noneLate_cons rfl).mpr ⟨?_, trivial⟩⟩⟩
    · rintro ⟨⟨_, ⟨⟩⟩, -⟩
    · rintro ⟨-, hmem⟩
      exact List.not_mem_nil hmem
    · rintro ⟨⟨_, ⟨⟩⟩, -⟩

/-- Both calls look the e-mail up before one of them inserts its row. -/
theorem lost_race : ∃ s : State Bool,
    (State.start noUsers).run oneBackend "a@b.c" twoCalls [false, true, false, true] = some s ∧
      (∀ p, (s.phase p).Ended) ∧ ¬Exact "a@b.c" s ∧
      s.phase true = .rejected .uniqueViolation ∧
      (errorHandler .uniqueViolation).status = 500 := by
  refine ⟨_, rfl, ?_, ?_, rfl, rfl⟩
  · rintro (_ | _) <;> trivial
  · intro hexact
    obtain ⟨err, herr, rfl, -⟩ := hexact.others true id
    cases herr

end ScalableBooking.Auth
