import ScalableBooking.Auth.Register

/-!
# Logging in

`loginUser`, the tokens of `jwt.ts`, and `requireAuth`.

A log-in with an unknown e-mail verifies the password against `DUMMY_PASSWORD_HASH`, so that it
costs what a wrong password costs. With passwords that are stored as `hashPassword` stores them,
every log-in calls `scrypt` once, with a salt and a key of the same lengths, and every one that
fails is answered alike (`login_uniform`).

`jsonwebtoken` is a parameter (`Jwt`), with the secret and the lifetime of the environment. A token
that has been signed is read as what it was signed for until it expires, and no other text is read
as anything.
-/

namespace ScalableBooking.Auth

open Javascript

/-! ### Tokens -/

/-- What `jwt.verify` throws. -/
inductive JwtError where
  | tokenExpired
  | jsonWebToken (message : String)
deriving DecidableEq, Repr

/-- `jsonwebtoken`. Times are in seconds. -/
structure Jwt (N : Type) [NatCast N] where
  lifetime : ℕ
  sign : ℕ → ℕ → String
  verify : String → ℕ → Except JwtError (Json N)
  verify_sign : ∀ userId time now, verify (sign userId time) now =
    if now < time + lifetime then
      .ok (.object [("userId", .number userId), ("iat", .number time),
        ("exp", .number (time + lifetime : ℕ))])
    else .error .tokenExpired
  signed_of_verify : ∀ token now decoded, verify token now = .ok decoded →
    ∃ userId time, token = sign userId time

section Tokens

variable {N : Type} [NatCast N]

/-- `verifyAuthToken`. -/
def verifyAuthToken (jwt : Jwt N) (token : String) (now : ℕ) : Except JwtError N :=
  match jwt.verify token now with
  | .error err => .error err
  | .ok (.object members) =>
      match members.lookup "userId" with
      | some (.number userId) => .ok userId
      | _ => .error (.jsonWebToken "token payload missing numeric userId")
  | .ok _ => .error (.jsonWebToken "token payload missing numeric userId")

/-- `UnauthorizedError`. -/
def unauthorized (message : String) : Thrown := .app message 401 "UNAUTHORIZED"

def bearer : List Char := "Bearer ".toList

/-- `requireAuth`, with the `userId` that it puts on the request. -/
def requireAuth (jwt : Jwt N) (authorization : Option String) (now : ℕ) : Except Thrown N :=
  match authorization with
  | none => .error (unauthorized "Missing or invalid authorization token")
  | some header =>
      if bearer.isPrefixOf header.toList then
        match verifyAuthToken jwt (String.ofList (header.toList.drop bearer.length)) now with
        | .ok userId => .ok userId
        | .error .tokenExpired => .error (unauthorized "Token expired")
        | .error (.jsonWebToken _) =>
            .error (unauthorized "Missing or invalid authorization token")
      else .error (unauthorized "Missing or invalid authorization token")

theorem verifyAuthToken_sign (jwt : Jwt N) (userId time now : ℕ) :
    verifyAuthToken jwt (jwt.sign userId time) now =
      if now < time + jwt.lifetime then .ok (userId : N) else .error .tokenExpired := by
  unfold verifyAuthToken
  rw [jwt.verify_sign]
  by_cases hnow : now < time + jwt.lifetime
  · rw [if_pos hnow, if_pos hnow]
    rfl
  · rw [if_neg hnow, if_neg hnow]

/-- A request that passes carries a token that was signed for its user and has not expired. -/
theorem signed_of_requireAuth {jwt : Jwt N} {authorization : Option String} {now : ℕ} {userId : N}
    (h : requireAuth jwt authorization now = .ok userId) :
    ∃ id time, authorization = some ("Bearer " ++ jwt.sign id time) ∧ userId = id ∧
      now < time + jwt.lifetime := by
  unfold requireAuth at h
  split at h
  · cases h
  · rename_i header
    split at h
    · rename_i hprefix
      split at h
      · rename_i userId' hverify
        obtain rfl : userId' = userId := Except.ok.inj h
        have hsigned : ∃ id time, String.ofList (header.toList.drop bearer.length) =
            jwt.sign id time := by
          unfold verifyAuthToken at hverify
          split at hverify
          · cases hverify
          · rename_i hdecoded
            exact jwt.signed_of_verify _ _ _ hdecoded
          · rename_i hdecoded
            exact jwt.signed_of_verify _ _ _ hdecoded
        obtain ⟨id, time, htoken⟩ := hsigned
        rw [htoken, verifyAuthToken_sign] at hverify
        refine ⟨id, time, ?_, ?_⟩
        · obtain ⟨rest, hrest⟩ := List.isPrefixOf_iff_prefix.mp hprefix
          rw [← hrest, List.drop_left] at htoken
          have hheader : header.toList = ("Bearer " ++ jwt.sign id time).toList := by
            rw [String.toList_append, ← htoken, String.toList_ofList, String.toList_ofList]
            exact hrest.symm
          rw [String.toList_inj.mp hheader]
        · split at hverify
          · rename_i hnow
            exact ⟨(Except.ok.inj hverify).symm, hnow⟩
          · cases hverify
      · cases h
      · cases h
    · cases h

/-- A signed token passes for its user until it expires. -/
theorem requireAuth_sign (jwt : Jwt N) (id time now : ℕ) :
    requireAuth jwt (some ("Bearer " ++ jwt.sign id time)) now =
      if now < time + jwt.lifetime then .ok (id : N)
      else .error (unauthorized "Token expired") := by
  have hheader : ("Bearer " ++ jwt.sign id time).toList = bearer ++ (jwt.sign id time).toList :=
    String.toList_append
  have hprefix : bearer.isPrefixOf (bearer ++ (jwt.sign id time).toList) = true :=
    List.isPrefixOf_iff_prefix.mpr (List.prefix_append _ _)
  unfold requireAuth
  dsimp only
  rw [hheader, if_pos hprefix, List.drop_left, String.ofList_toList, verifyAuthToken_sign]
  by_cases hnow : now < time + jwt.lifetime
  · rw [if_pos hnow, if_pos hnow]
  · rw [if_neg hnow, if_neg hnow]

end Tokens

/-! ### The use case -/

/-- `InvalidCredentialsError`. -/
def Thrown.invalidCredentials : Thrown :=
  .app "Invalid email or password" 401 "INVALID_CREDENTIALS"

def dummySalt : List Char := "4a2ef54ef807453be20f4eb7c0bfe44e".toList

def dummyKey : List Char :=
  "d3be26438fe0e22012c86fb6880cb0c23e4ad1b896b90031faeea5db537123cf".toList ++
    "7b50e9795335a4d65008fc2cafb65d8201e56efe297241539d7a9d826248a191".toList

/-- `DUMMY_PASSWORD_HASH`. -/
def dummyPasswordHash : List Char := dummySalt ++ ':' :: dummyKey

/-- The text that the password is verified against. -/
def storedFor (user : Option User) : List Char :=
  (user.map User.passwordHash).getD dummyPasswordHash

/-- The end of `loginUser`. -/
def answerLogin (signAuthToken : ℕ → String) (user : Option User) (valid : Bool) :
    Except Thrown Registered :=
  match user, valid with
  | some user, true => .ok ⟨user.id, user.email, signAuthToken user.id⟩
  | _, _ => .error .invalidCredentials

/-- `loginUser` after its look-up. -/
def login (scrypt : Scrypt) (signAuthToken : ℕ → String) (user : Option User) (password : String) :
    Hashing (Except Thrown Registered) := do
  let valid ← verifyPassword scrypt password (storedFor user)
  return answerLogin signAuthToken user valid

/-- `loginUser`, when nothing comes between its look-up and the rest. -/
def loginUser (scrypt : Scrypt) (signAuthToken : ℕ → String) (users : Users)
    (email password : String) : Hashing (Except Thrown Registered) :=
  login scrypt signAuthToken (findUserByEmail users email) password

/-! ### What a log-in costs -/

/-- A text that `hashPassword` could have stored. -/
def Stored (stored : List Char) : Prop :=
  ∃ salt key, Encodes stored salt key ∧ salt.length = saltLength

/-- All the passwords of a table are stored so. -/
def WellHashed (users : Users) : Prop := ∀ row ∈ users.rows, Stored row.passwordHash

theorem encodes_hashPassword (scrypt : Scrypt) (salt : Salt) (password : String) :
    Encodes (hashPassword scrypt salt password) salt.bytes
      (scrypt.derive password salt.bytes keyLength) := by
  refine ⟨⟨_, _, rfl, Hex.writes_encode _, Hex.writes_encode _⟩, ?_,
    scrypt.length_derive password salt.bytes keyLength⟩
  intro hnil
  have hlength := salt.length_eq
  rw [hnil] at hlength
  exact absurd hlength (by decide)

theorem stored_hashPassword (scrypt : Scrypt) (salt : Salt) (password : String) :
    Stored (hashPassword scrypt salt password) :=
  ⟨_, _, encodes_hashPassword scrypt salt password, salt.length_eq⟩

/-- What has been stored for a password is right for it. -/
theorem verifyPassword_hashPassword (scrypt : Scrypt) (salt : Salt) (password : String) :
    (verifyPassword scrypt password (hashPassword scrypt salt password)).result = .ok true := by
  obtain ⟨saltHex, hashHex, hparts, hsaltHex, hhashHex, hsalt, hkey⟩ :=
    (encodes_hashPassword scrypt salt password).parts
  rw [verifyPassword_of_parts hparts hsaltHex hhashHex, hsalt, hkey, scrypt.length_derive,
    beq_self_eq_true]

/-- Pairs of digits are bytes. -/
theorem writes_decode : ∀ {text : List Char}, (text.all fun c => (Hex.digit? c).isSome) = true →
    text.length % 2 = 0 → Hex.Writes text (Hex.decode text)
  | [], _, _ => .nil
  | [_], _, hlength => absurd hlength (by simp)
  | c :: d :: text, hdigits, hlength => by
    simp only [List.all_cons, Bool.and_eq_true] at hdigits
    obtain ⟨hc, hd, htext⟩ := hdigits
    obtain ⟨high, hhigh⟩ := Option.isSome_iff_exists.mp hc
    obtain ⟨low, hlow⟩ := Option.isSome_iff_exists.mp hd
    simp only [Hex.decode, hhigh, hlow]
    refine .cons hhigh hlow (writes_decode htext ?_)
    simp only [List.length_cons] at hlength
    omega

/-- The dummy is one as well. -/
theorem stored_dummyPasswordHash : Stored dummyPasswordHash := by
  have hsalt : Hex.Writes dummySalt (Hex.decode dummySalt) := writes_decode rfl rfl
  have hkey : Hex.Writes dummyKey (Hex.decode dummyKey) :=
    writes_decode (by decide +kernel) (by decide +kernel)
  refine ⟨_, _, ⟨⟨_, _, rfl, hsalt, hkey⟩, ?_, by decide +kernel⟩, rfl⟩
  intro hnil
  exact absurd (congrArg List.length hnil) (by decide)

/-- A stored text is verified with one call of `scrypt`. -/
theorem Stored.verifyPassword_eq {stored : List Char} (h : Stored stored) (scrypt : Scrypt)
    (password : String) : ∃ right, verifyPassword scrypt password stored =
      ⟨.ok right, [⟨password, saltLength, keyLength⟩]⟩ := by
  obtain ⟨salt, key, hencodes, hsalt⟩ := h
  obtain ⟨saltHex, hashHex, hparts, hsaltHex, hhashHex, rfl, rfl⟩ := hencodes.parts
  rw [verifyPassword_of_parts hparts hsaltHex hhashHex, hsalt, hencodes.key_length]
  exact ⟨_, rfl⟩

/-- A log-in makes the calls that the verification makes. -/
theorem login_of_verifyPassword {scrypt : Scrypt} {user : Option User} {password : String}
    {valid : Bool} {calls : List ScryptCall}
    (h : verifyPassword scrypt password (storedFor user) = ⟨.ok valid, calls⟩)
    (signAuthToken : ℕ → String) : login scrypt signAuthToken user password =
      ⟨.ok (answerLogin signAuthToken user valid), calls⟩ := by
  simp only [login, h, Bind.bind, Hashing.bind]
  exact congrArg _ (List.append_nil calls)

theorem WellHashed.stored {users : Users} (h : WellHashed users) (email : String) :
    Stored (storedFor (findUserByEmail users email)) := by
  unfold storedFor
  cases hfound : findUserByEmail users email with
  | none => exact stored_dummyPasswordHash
  | some user => exact h user (List.mem_of_find?_eq_some hfound)

/-- **Log-ins look alike.** With well hashed passwords every log-in makes the same call of `scrypt`,
whether or not its e-mail is registered and its password right. It succeeds exactly if both hold,
and else it is answered in one way. -/
theorem WellHashed.login_uniform {users : Users} (h : WellHashed users) (scrypt : Scrypt)
    (signAuthToken : ℕ → String) (email password : String) :
    (loginUser scrypt signAuthToken users email password).calls =
        [⟨password, saltLength, keyLength⟩] ∧
      ((∃ user, findUserByEmail users email = some user ∧
          (verifyPassword scrypt password user.passwordHash).result = .ok true ∧
          (loginUser scrypt signAuthToken users email password).result =
            .ok (.ok ⟨user.id, user.email, signAuthToken user.id⟩)) ∨
        (∀ user, findUserByEmail users email = some user →
          (verifyPassword scrypt password user.passwordHash).result = .ok false) ∧
          (loginUser scrypt signAuthToken users email password).result =
            .ok (.error .invalidCredentials)) := by
  obtain ⟨valid, hvalid⟩ := (h.stored email).verifyPassword_eq scrypt password
  rw [loginUser, login_of_verifyPassword hvalid signAuthToken]
  refine ⟨rfl, ?_⟩
  cases hfound : findUserByEmail users email with
  | none => exact .inr ⟨nofun, rfl⟩
  | some user =>
    rw [hfound] at hvalid
    have hresult : (verifyPassword scrypt password user.passwordHash).result = .ok valid :=
      congrArg Hashing.result hvalid
    cases valid with
    | true => exact .inl ⟨user, rfl, hresult, rfl⟩
    | false =>
      refine .inr ⟨?_, rfl⟩
      rintro user' huser
      obtain rfl : user = user' := Option.some.inj huser
      exact hresult

end ScalableBooking.Auth
