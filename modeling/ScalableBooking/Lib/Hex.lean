import Mathlib.Data.List.Basic
import Mathlib.Tactic.IntervalCases

/-!
# Bytes written with hexadecimal digits

Two digits a byte, the upper half first. Whoever reads such a text may meet one that is not: the
reader here (`decode`) takes the pairs from the front, in either case of the letters, and stops
without a word at the first pair that is none. So it returns something for every text, and what it
returns is written in the text only if the whole text is pairs (`Writes`).
-/

namespace ScalableBooking.Hex

/-- The value of a digit. -/
def digit? (c : Char) : Option ℕ :=
  if '0' ≤ c ∧ c ≤ '9' then some (c.toNat - '0'.toNat)
  else if 'a' ≤ c ∧ c ≤ 'f' then some (c.toNat - 'a'.toNat + 10)
  else if 'A' ≤ c ∧ c ≤ 'F' then some (c.toNat - 'A'.toNat + 10)
  else none

/-- The text of the bytes, in lower case. -/
def encode : List UInt8 → List Char
  | [] => []
  | b :: bytes => Nat.digitChar (b.toNat / 16) :: Nat.digitChar (b.toNat % 16) :: encode bytes

/-- The bytes of the pairs at the front of the text. -/
def decode : List Char → List UInt8
  | c :: d :: text =>
      match digit? c, digit? d with
      | some high, some low => .ofNat (16 * high + low) :: decode text
      | _, _ => []
  | _ => []

/-- The text is the bytes, in digits of either case. -/
inductive Writes : List Char → List UInt8 → Prop
  | nil : Writes [] []
  | cons {c d : Char} {high low : ℕ} {text : List Char} {bytes : List UInt8} :
      digit? c = some high → digit? d = some low → Writes text bytes →
        Writes (c :: d :: text) (.ofNat (16 * high + low) :: bytes)

theorem digit?_digitChar {n : ℕ} (h : n < 16) : digit? (Nat.digitChar n) = some n := by
  interval_cases n <;> rfl

theorem writes_encode (bytes : List UInt8) : Writes (encode bytes) bytes := by
  induction bytes with
  | nil => exact .nil
  | cons b bytes ih =>
    have hlt : b.toNat < 256 := b.toNat_lt
    have hhigh := digit?_digitChar (n := b.toNat / 16) (by omega)
    have hlow := digit?_digitChar (n := b.toNat % 16) (by omega)
    have hb : UInt8.ofNat (16 * (b.toNat / 16) + b.toNat % 16) = b := by
      rw [Nat.div_add_mod]
      exact UInt8.ofNat_toNat
    have hcons := Writes.cons hhigh hlow ih
    rwa [hb] at hcons

namespace Writes

variable {text : List Char} {bytes bytes' : List UInt8}

/-- A text that is bytes is read as them. -/
theorem decode_eq (h : Writes text bytes) : decode text = bytes := by
  induction h with
  | nil => rfl
  | cons hhigh hlow _ ih => simp [decode, hhigh, hlow, ih]

theorem digits (h : Writes text bytes) {c : Char} (hc : c ∈ text) : (digit? c).isSome := by
  induction h with
  | nil => cases hc
  | cons hhigh hlow _ ih =>
    rcases List.mem_cons.mp hc with rfl | hc
    · simp [hhigh]
    · rcases List.mem_cons.mp hc with rfl | hc
      · simp [hlow]
      · exact ih hc

theorem ne_nil (h : Writes text bytes) (hbytes : bytes ≠ []) : text ≠ [] := by
  rintro rfl
  exact hbytes h.decode_eq.symm

end Writes

end ScalableBooking.Hex
