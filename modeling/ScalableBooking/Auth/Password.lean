import ScalableBooking.Lib.Hex
import ScalableBooking.Lib.Javascript

/-!
# Stored passwords

`password.ts`: what is stored for a password is a salt and the key that `scrypt` derives from
both, each in hexadecimal digits, with a colon between. `scrypt` may be any function. A text is the
list of its characters. With its result `verifyPassword` returns the calls of `scrypt` that it has
made (`Hashing`).

`verifyPassword` takes the length of the key from what is stored. So a stored text that is no such
hash does not fail. Its digits are read up to the first pair that is none, and if that leaves no
byte of the key, every password is right (`every_password`). It is sound on the texts that it
rejects at once, and on those that `hashPassword` could have stored (`verifyPassword_sound_iff`).
-/

namespace ScalableBooking.Auth

open Javascript

abbrev Bytes := List UInt8

/-- `scrypt`, which returns as many bytes as it is asked for. -/
structure Scrypt where
  derive : String → Bytes → ℕ → Bytes
  length_derive : ∀ password salt length, (derive password salt length).length = length

def keyLength : ℕ := 64

def saltLength : ℕ := 16

/-- What `randomBytes` returns for a salt. -/
structure Salt where
  bytes : Bytes
  length_eq : bytes.length = saltLength

/-- `hashPassword`, with the salt that it has drawn. -/
def hashPassword (scrypt : Scrypt) (salt : Salt) (password : String) : List Char :=
  Hex.encode salt.bytes ++ ':' :: Hex.encode (scrypt.derive password salt.bytes keyLength)

/-- A call of `scrypt`, up to the bytes of the salt. -/
structure ScryptCall where
  password : String
  saltLength : ℕ
  keyLength : ℕ
deriving DecidableEq, Repr

/-- What a computation comes to, and the calls of `scrypt` that it makes. -/
structure Hashing (α : Type) where
  result : Except Exception α
  calls : List ScryptCall

namespace Hashing

variable {α β : Type}

/-- No call. -/
def of (result : Except Exception α) : Hashing α := ⟨result, []⟩

/-- One computation after the other, up to the first exception. -/
def bind (x : Hashing α) (f : α → Hashing β) : Hashing β :=
  match x.result with
  | .ok a => ⟨(f a).result, x.calls ++ (f a).calls⟩
  | .error err => ⟨.error err, x.calls⟩

instance : Monad Hashing where
  pure a := of (.ok a)
  bind := bind

end Hashing

/-- `scrypt`, as it is called. -/
def Scrypt.call (scrypt : Scrypt) (password : String) (salt : Bytes) (length : ℕ) :
    Hashing Bytes :=
  ⟨.ok (scrypt.derive password salt length), [⟨password, salt.length, length⟩]⟩

/-- `timingSafeEqual`. -/
def timingSafeEqual (a b : Bytes) : Except Exception Bool :=
  if a.length = b.length then .ok (a == b) else .error .rangeError

/-- `verifyPassword`. -/
def verifyPassword (scrypt : Scrypt) (password : String) (stored : List Char) : Hashing Bool :=
  match stored.splitOn ':' with
  | saltHex :: hashHex :: _ =>
      if saltHex = [] ∨ hashHex = [] then pure false
      else do
        let salt := Hex.decode saltHex
        let storedHash := Hex.decode hashHex
        let derivedKey ← scrypt.call password salt storedHash.length
        if derivedKey.length ≠ storedHash.length then pure false
        else .of (timingSafeEqual derivedKey storedHash)
  | _ => pure false

/-! ### What should be stored -/

/-- The stored text is a salt and a key of the full length. -/
structure Encodes (stored : List Char) (salt key : Bytes) : Prop where
  text : ∃ saltHex hashHex, stored = saltHex ++ ':' :: hashHex ∧ Hex.Writes saltHex salt ∧
    Hex.Writes hashHex key
  salt_ne : salt ≠ []
  key_length : key.length = keyLength

/-- The password is right if the key is the one that is derived from it, and wrong for every text
that is no salt and key. -/
def Sound (scrypt : Scrypt) (password : String) (stored : List Char) : Prop :=
  ∃ right, (verifyPassword scrypt password stored).result = .ok right ∧
    (right = true ↔
      ∃ salt key, Encodes stored salt key ∧ key = scrypt.derive password salt keyLength)

/-- There is nothing in one of the two places. -/
def Missing (stored : List Char) : Prop :=
  ∀ saltHex hashHex rest, stored.splitOn ':' = saltHex :: hashHex :: rest →
    saltHex = [] ∨ hashHex = []

variable {stored : List Char} {salt key : Bytes} {scrypt : Scrypt} {password : String}

theorem colon_notMem {text : List Char} {bytes : Bytes} (h : Hex.Writes text bytes) :
    ':' ∉ text := by
  intro hcolon
  have hdigit := h.digits hcolon
  simp [Hex.digit?] at hdigit

/-- A salt and a key come apart at the colon. -/
theorem Encodes.parts (h : Encodes stored salt key) :
    ∃ saltHex hashHex, stored.splitOn ':' = [saltHex, hashHex] ∧ saltHex ≠ [] ∧ hashHex ≠ [] ∧
      Hex.decode saltHex = salt ∧ Hex.decode hashHex = key := by
  obtain ⟨saltHex, hashHex, rfl, hsalt, hkey⟩ := h.text
  have hkey_ne : key ≠ [] := by
    rintro rfl
    exact absurd h.key_length (by decide)
  refine ⟨saltHex, hashHex, ?_, hsalt.ne_nil h.salt_ne, hkey.ne_nil hkey_ne, hsalt.decode_eq,
    hkey.decode_eq⟩
  rw [List.splitOn_append_cons_self_of_not_mem (colon_notMem hsalt),
    List.splitOn_eq_singleton (colon_notMem hkey)]

/-- Two texts in their places are read as bytes, whatever they are, and `scrypt` is called once. -/
theorem verifyPassword_of_parts {saltHex hashHex : List Char} {rest : List (List Char)}
    (hparts : stored.splitOn ':' = saltHex :: hashHex :: rest) (hsalt : saltHex ≠ [])
    (hhash : hashHex ≠ []) :
    verifyPassword scrypt password stored =
      ⟨.ok (scrypt.derive password (Hex.decode saltHex) (Hex.decode hashHex).length ==
          Hex.decode hashHex),
        [⟨password, (Hex.decode saltHex).length, (Hex.decode hashHex).length⟩]⟩ := by
  simp [verifyPassword, hparts, hsalt, hhash, Scrypt.call, Bind.bind, Hashing.bind, Hashing.of,
    scrypt.length_derive, timingSafeEqual]

theorem verifyPassword_of_missing (h : Missing stored) :
    verifyPassword scrypt password stored = ⟨.ok false, []⟩ := by
  unfold verifyPassword
  split
  · rename_i saltHex hashHex rest hparts
    exact if_pos (h saltHex hashHex rest hparts)
  · rfl

theorem Missing.not_encodes (h : Missing stored) : ¬Encodes stored salt key := by
  intro hencodes
  obtain ⟨saltHex, hashHex, hparts, hsalt, hhash, -⟩ := hencodes.parts
  exact (h saltHex hashHex [] hparts).elim hsalt hhash

/-- A salt and a key are verified as they should be. -/
theorem Encodes.sound (h : Encodes stored salt key) : Sound scrypt password stored := by
  obtain ⟨saltHex, hashHex, hparts, hsalt, hhash, rfl, rfl⟩ := h.parts
  rw [Sound, verifyPassword_of_parts hparts hsalt hhash]
  refine ⟨_, rfl, ?_⟩
  rw [beq_iff_eq, h.key_length]
  constructor
  · intro heq
    exact ⟨_, _, h, heq.symm⟩
  · rintro ⟨salt', key', h', heq⟩
    obtain ⟨saltHex', hashHex', hparts', -, -, rfl, rfl⟩ := h'.parts
    cases hparts.symm.trans hparts'
    exact heq.symm

/-- A function that derives this key from everything. -/
def Scrypt.constant (key : Bytes) : Scrypt where
  derive _ _ length := if length = key.length then key else List.replicate length 0
  length_derive _ _ length := by
    split
    · rename_i hlength
      exact hlength.symm
    · exact List.length_replicate

/-- Every other text is taken for a key of its own length, which some function may derive. -/
theorem exists_not_sound {saltHex hashHex : List Char} {rest : List (List Char)}
    (hparts : stored.splitOn ':' = saltHex :: hashHex :: rest) (hsalt : saltHex ≠ [])
    (hhash : hashHex ≠ []) (h : ∀ salt key, ¬Encodes stored salt key) (password : String) :
    ∃ scrypt, ¬Sound scrypt password stored := by
  refine ⟨.constant (Hex.decode hashHex), ?_⟩
  rintro ⟨right, hright, hiff⟩
  have hderive : (Scrypt.constant (Hex.decode hashHex)).derive password (Hex.decode saltHex)
      (Hex.decode hashHex).length = Hex.decode hashHex := if_pos rfl
  rw [verifyPassword_of_parts hparts hsalt hhash, hderive, beq_self_eq_true] at hright
  cases hright
  obtain ⟨salt, key, hencodes, -⟩ := hiff.mp rfl
  exact h salt key hencodes

/-- Verification is sound on a stored text, whatever `scrypt` and the password are, if and only if
a part is missing or the text is a salt and a key. What has been stored for a password is right for
it. -/
theorem verifyPassword_sound_iff (stored : List Char) :
    ((∀ scrypt password, Sound scrypt password stored) ↔
        Missing stored ∨ ∃ salt key, Encodes stored salt key) ∧
      ∀ scrypt salt password,
        (verifyPassword scrypt password (hashPassword scrypt salt password)).result =
          .ok true := by
  refine ⟨⟨?_, ?_⟩, ?_⟩
  · intro hsound
    by_contra hnot
    rw [not_or, Missing] at hnot
    push Not at hnot
    obtain ⟨⟨saltHex, hashHex, rest, hparts, hsalt, hhash⟩, hencodes⟩ := hnot
    -- some scrypt takes a password for right that this text was not made of
    obtain ⟨scrypt, hscrypt⟩ := exists_not_sound hparts hsalt hhash hencodes ""
    exact hscrypt (hsound scrypt "")
  · rintro (hmissing | ⟨salt, key, hencodes⟩) scrypt password
    · rw [Sound, verifyPassword_of_missing hmissing]
      refine ⟨false, rfl, ?_⟩
      refine iff_of_false Bool.false_ne_true ?_
      rintro ⟨salt, key, hencodes, -⟩
      exact hmissing.not_encodes hencodes
    · exact hencodes.sound
  · intro scrypt salt password
    have hencodes : Encodes (hashPassword scrypt salt password) salt.bytes
        (scrypt.derive password salt.bytes keyLength) := by
      refine ⟨⟨_, _, rfl, Hex.writes_encode _, Hex.writes_encode _⟩, ?_,
        scrypt.length_derive password salt.bytes keyLength⟩
      -- the salt of a new hash is not empty
      intro hnil
      have hlength := salt.length_eq
      rw [hnil] at hlength
      exact absurd hlength (by decide)
    have hsound : Sound scrypt password (hashPassword scrypt salt password) := hencodes.sound
    obtain ⟨right, hright, hiff⟩ := hsound
    rw [hright, hiff.mpr ⟨_, _, hencodes, rfl⟩]

/-- In `ab:zz` no pair of digits is in the place of the key, so every password is right. -/
theorem every_password : ∃ stored, stored = ['a', 'b', ':', 'z', 'z'] ∧ ∀ scrypt password,
    (verifyPassword scrypt password stored).result = .ok true ∧ ¬Sound scrypt password stored := by
  refine ⟨_, rfl, ?_⟩
  intro scrypt password
  have hparts : ['a', 'b', ':', 'z', 'z'].splitOn ':' = [['a', 'b'], ['z', 'z']] := by
    rw [show ['a', 'b', ':', 'z', 'z'] = ['a', 'b'] ++ ':' :: ['z', 'z'] from rfl,
      List.splitOn_append_cons_self_of_not_mem (by decide), List.splitOn_eq_singleton (by decide)]
  -- no digits, so the stored key is read as the empty one, and any key has that as its start
  have hkey : Hex.decode ['z', 'z'] = [] := by decide
  have hright :
      (verifyPassword scrypt password ['a', 'b', ':', 'z', 'z']).result = .ok true := by
    have hderive : scrypt.derive password (Hex.decode ['a', 'b']) ([] : Bytes).length = [] :=
      List.eq_nil_of_length_eq_zero (scrypt.length_derive password _ _)
    rw [verifyPassword_of_parts hparts (by simp) (by simp), hkey, hderive]
    rfl
  refine ⟨hright, ?_⟩
  rintro ⟨right, hright', hiff⟩
  -- a text that is the hash of a password has a key of 64 bytes
  cases hright.symm.trans hright'
  obtain ⟨salt, key, hencodes, -⟩ := hiff.mp rfl
  obtain ⟨saltHex, hashHex, hparts', -, -, -, hdecode⟩ := hencodes.parts
  cases hparts.symm.trans hparts'
  rw [hkey] at hdecode
  subst hdecode
  exact absurd hencodes.key_length (by decide)

end ScalableBooking.Auth
