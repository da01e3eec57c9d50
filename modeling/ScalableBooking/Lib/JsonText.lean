import Mathlib.Data.List.Basic
import ScalableBooking.Lib.Hex

/-!
# The text of a JSON value

A JSON text is read in two passes, each a machine that takes one thing at a time:

* `Mode.step` reads a character and gives out the tokens that end there. It knows the strings with
  their escapes, and refuses the control characters that may not stand in one as they are;
* `Reader.step` reads a token, and keeps the arrays and objects that are still open on a stack.

`parse` runs one after the other. So the meaning of a text can be computed in parts: `scan_append`
cuts the first pass anywhere, and what is written inside a string is a matter of the string alone
(`scan_flatMap`).
-/

namespace ScalableBooking.JsonText

/-- A value. A number is kept as it is written, and an object has its members in order. -/
inductive Json where
  | null
  | bool (b : Bool)
  | number (text : List Char)
  | str (s : List Char)
  | array (items : List Json)
  | object (members : List (List Char × Json))

/-! ## Characters to tokens -/

inductive Token where
  | beginArray
  | endArray
  | beginObject
  | endObject
  | nameSeparator
  | valueSeparator
  | str (s : List Char)
  /-- A run of other characters: a number, a literal name, or nothing that is allowed. -/
  | word (w : List Char)
  deriving DecidableEq

/-- Where the reader of characters stands. -/
inductive Mode where
  | between
  | word (w : List Char)
  /-- In a string that has been read as far as `s`. -/
  | string (s : List Char)
  /-- After the backslash. -/
  | escape (s : List Char)
  /-- In `\uXXXX`, with `k` digits read that make the number `n`. It is the second half of a pair if
  the first was `high`. -/
  | unit (high : Option ℕ) (s : List Char) (n k : ℕ)
  /-- The second half of a pair is due. Its backslash may have been read. -/
  | pair (high : ℕ) (s : List Char) (backslash : Bool)
  deriving DecidableEq

def isSpace (c : Char) : Bool :=
  c == ' ' || c == '\t' || c == '\n' || c == '\r'

def structural? (c : Char) : Option Token :=
  if c = '[' then some .beginArray
  else if c = ']' then some .endArray
  else if c = '\x7b' then some .beginObject
  else if c = '\x7d' then some .endObject
  else if c = ':' then some .nameSeparator
  else if c = ',' then some .valueSeparator
  else none

/-- The character that stands for itself or for another one after a backslash. -/
def escaped? (c : Char) : Option Char :=
  if c = '"' then some '"'
  else if c = '\\' then some '\\'
  else if c = '/' then some '/'
  else if c = 'b' then some '\x08'
  else if c = 'f' then some '\x0c'
  else if c = 'n' then some '\n'
  else if c = 'r' then some '\r'
  else if c = 't' then some '\t'
  else none

/-- The end of `\uXXXX`: a character, the first half of a pair, or the second. -/
def endUnit (high : Option ℕ) (s : List Char) (n : ℕ) : Option Mode :=
  match high with
  | none =>
      if 0xd800 ≤ n ∧ n < 0xdc00 then some (.pair n s false)
      else if 0xdc00 ≤ n ∧ n < 0xe000 then none
      else some (.string (s ++ [Char.ofNat n]))
  | some high =>
      if 0xdc00 ≤ n ∧ n < 0xe000 then
        some (.string (s ++ [Char.ofNat (0x10000 + (high - 0xd800) * 0x400 + (n - 0xdc00))]))
      else none

/-- The character that may not stand in a string as it is, next to the quotation mark and the
backslash. -/
def IsControl (c : Char) : Prop := c.toNat < 0x20

instance : DecidablePred IsControl := fun c => inferInstanceAs (Decidable (c.toNat < 0x20))

/-- One character, from between two tokens. -/
def stepBetween (c : Char) : List Token × Mode :=
  if isSpace c then ([], .between)
  else if c = '"' then ([], .string [])
  else match structural? c with
    | some t => ([t], .between)
    | none => ([], .word [c])

/-- One character. -/
def Mode.step : Mode → Char → Option (List Token × Mode)
  | between, c => some (stepBetween c)
  | word w, c =>
      -- the character that ends the word is read like one between two tokens
      if isSpace c || c == '"' || (structural? c).isSome then
        some (.word w :: (stepBetween c).1, (stepBetween c).2)
      else some ([], word (w ++ [c]))
  | string s, c =>
      if c = '"' then some ([.str s], between)
      else if c = '\\' then some ([], escape s)
      else if IsControl c then none
      else some ([], string (s ++ [c]))
  | escape s, c =>
      if c = 'u' then some ([], unit none s 0 0)
      else (escaped? c).map fun d => ([], string (s ++ [d]))
  | unit high s n k, c =>
      (Hex.digit? c).bind fun d =>
        if k = 3 then (endUnit high s (16 * n + d)).map fun m => ([], m)
        else some ([], unit high s (16 * n + d) (k + 1))
  | pair high s false, c => if c = '\\' then some ([], pair high s true) else none
  | pair high s true, c => if c = 'u' then some ([], unit (some high) s 0 0) else none

/-- A piece of the text, with the tokens that end in it. -/
def scan : Mode → List Char → Option (List Token × Mode)
  | m, [] => some ([], m)
  | m, c :: text => (m.step c).bind fun r => (scan r.2 text).map fun r' => (r.1 ++ r'.1, r'.2)

/-- The tokens of a text. It may not end inside a string. -/
def tokens (text : List Char) : Option (List Token) :=
  (scan .between text).bind fun r =>
    match r.2 with
    | .between => some r.1
    | .word w => some (r.1 ++ [.word w])
    | _ => none

/-! ## Tokens to values -/

def digits? : List Char → Option (List Char)
  | c :: text => if c.isDigit then some (text.dropWhile Char.isDigit) else none
  | [] => none

def integer? : List Char → Option (List Char)
  | '0' :: text => some text
  | text => digits? text

def fraction? : List Char → Option (List Char)
  | '.' :: text => digits? text
  | text => some text

def exponent? : List Char → Option (List Char)
  | c :: text =>
      if c = 'e' ∨ c = 'E' then
        match text with
        | '+' :: text => digits? text
        | '-' :: text => digits? text
        | text => digits? text
      else some (c :: text)
  | [] => some []

/-- The word is a number: a sign, an integer without a leading zero, a fraction, an exponent. -/
def isNumber (w : List Char) : Bool :=
  ((integer? (if w.head? = some '-' then w.tail else w)).bind fraction?).bind exponent? == some []

/-- The value of a word. -/
def word? (w : List Char) : Option Json :=
  if w = ['n', 'u', 'l', 'l'] then some .null
  else if w = ['t', 'r', 'u', 'e'] then some (.bool true)
  else if w = ['f', 'a', 'l', 's', 'e'] then some (.bool false)
  else if isNumber w then some (.number w)
  else none

/-- An array or an object that is still open, with what it has so far, the last first. -/
inductive Frame where
  | array (items : List Json)
  | object (members : List (List Char × Json)) (name : List Char)

/-- Where the reader of tokens stands: what is due, inside what is open. -/
inductive Reader where
  | value (stack : List Frame)
  /-- A value, or the end of the array that has just begun. -/
  | firstItem (stack : List Frame)
  /-- A name, or the end of the object if it has just begun. -/
  | name (first : Bool) (members : List (List Char × Json)) (stack : List Frame)
  | colon (members : List (List Char × Json)) (name : List Char) (stack : List Frame)
  /-- A value has been read. -/
  | read (v : Json) (stack : List Frame)

/-- A token where a value is due. -/
def stepValue (stack : List Frame) : Token → Option Reader
  | .beginArray => some (.firstItem stack)
  | .beginObject => some (.name true [] stack)
  | .str s => some (.read (.str s) stack)
  | .word w => (word? w).map fun v => .read v stack
  | _ => none

/-- One token. -/
def Reader.step : Reader → Token → Option Reader
  | value stack, t => stepValue stack t
  | firstItem stack, .endArray => some (read (.array []) stack)
  | firstItem stack, t => stepValue (.array [] :: stack) t
  | name _ members stack, .str s => some (colon members s stack)
  | name true _ stack, .endObject => some (read (.object []) stack)
  | name _ _ _, _ => none
  | colon members k stack, .nameSeparator => some (value (.object members k :: stack))
  | colon _ _ _, _ => none
  | read v (.array items :: stack), .valueSeparator => some (value (.array (v :: items) :: stack))
  | read v (.array items :: stack), .endArray => some (read (.array (v :: items).reverse) stack)
  | read v (.object members k :: stack), .valueSeparator =>
      some (name false ((k, v) :: members) stack)
  | read v (.object members k :: stack), .endObject =>
      some (read (.object ((k, v) :: members).reverse) stack)
  | read _ _, _ => none

/-- The value that a list of tokens is. -/
def value? (ts : List Token) : Option Json :=
  (ts.foldlM Reader.step (.value [])).bind fun r =>
    match r with
    | .read v [] => some v
    | _ => none

/-- The value of a text, if it is the text of one. A string is made of characters, so a text that
escapes one half of a surrogate pair alone is refused. -/
def parse (text : List Char) : Option Json := (tokens text).bind value?

/-! ## Scanning in parts -/

theorem scan_append (m : Mode) (x y : List Char) :
    scan m (x ++ y) =
      (scan m x).bind fun r => (scan r.2 y).map fun r' => (r.1 ++ r'.1, r'.2) := by
  induction x generalizing m with
  | nil => simp [scan]
  | cons c x ih =>
    rw [List.cons_append, scan, scan]
    cases m.step c with
    | none => rfl
    | some r =>
      rw [Option.bind_some, Option.bind_some, ih]
      cases scan r.2 x <;> simp [Function.comp_def]

/-- The text `x`, inside a string, is the character `c`. -/
def Stands (x : List Char) (c : Char) : Prop :=
  ∀ s, scan (.string s) x = some ([], .string (s ++ [c]))

/-- The text may not stand in a string. -/
def Refused (x : List Char) : Prop := ∀ s, scan (.string s) x = none

theorem stands_self {c : Char} (hquote : c ≠ '"') (hbackslash : c ≠ '\\')
    (hcontrol : ¬ IsControl c) : Stands [c] c := by
  intro s
  rw [scan, Mode.step, if_neg hquote, if_neg hbackslash, if_neg hcontrol]
  rfl

theorem stands_escaped {c d : Char} (h : escaped? c = some d) : Stands ['\\', c] d := by
  intro s
  -- no single character is written with `u`
  have hu : c ≠ 'u' := by
    rintro rfl
    rw [show escaped? 'u' = none by decide] at h
    exact Option.some_ne_none d h.symm
  have hstep : (Mode.escape s).step c = some ([], .string (s ++ [d])) := by
    rw [Mode.step, if_neg hu, h, Option.map_some]
  rw [scan, Mode.step, if_neg (by decide), if_pos rfl, Option.bind_some, scan, hstep]
  rfl

theorem refused_of_isControl {c : Char} (h : IsControl c) : Refused [c] := by
  intro s
  -- so it is neither the quotation mark nor the backslash
  have hne : ∀ d, ¬ IsControl d → c ≠ d := by
    rintro d hd rfl
    exact hd h
  rw [scan, Mode.step, if_neg (hne '"' (by decide)), if_neg (hne '\\' (by decide)), if_pos h]
  rfl

section Strings

variable {e : Char → List Char} {s : List Char}

/-- A string is read character by character. -/
theorem scan_flatMap (h : ∀ c ∈ s, Stands (e c) c) (r : List Char) :
    scan (.string r) (s.flatMap e) = some ([], .string (r ++ s)) := by
  induction s generalizing r with
  | nil => simp [scan]
  | cons c s ih =>
    rw [List.flatMap_cons, scan_append, h c List.mem_cons_self r, Option.bind_some,
      ih fun d hd => h d (List.mem_cons_of_mem c hd)]
    simp

/-- One character that is refused spoils the string. -/
theorem scan_flatMap_of_refused (h : ∀ c, Stands (e c) c ∨ Refused (e c))
    (hs : ∃ c ∈ s, Refused (e c)) (r : List Char) : scan (.string r) (s.flatMap e) = none := by
  induction s generalizing r with
  | nil => simp at hs
  | cons c s ih =>
    rw [List.flatMap_cons, scan_append]
    obtain hc | hc := h c
    · -- this one stands, so the one that is refused comes later
      have hs' : ∃ d ∈ s, Refused (e d) := by
        obtain ⟨d, hd, hrefused⟩ := hs
        obtain rfl | hd := List.mem_cons.mp hd
        · exact absurd ((hc []).symm.trans (hrefused [])) (by simp)
        · exact ⟨d, hd, hrefused⟩
      rw [hc r, Option.bind_some, ih hs', Option.map_none]
    · rw [hc r, Option.bind_none]

/-- A whole string between two tokens is one token. -/
theorem scan_quoted (h : ∀ c ∈ s, Stands (e c) c) (text : List Char) :
    scan .between ('"' :: (s.flatMap e ++ '"' :: text)) =
      (scan .between text).map fun r => (.str s :: r.1, r.2) := by
  have hopen : Mode.between.step '"' = some ([], .string []) := rfl
  have hclose : (Mode.string s).step '"' = some ([.str s], .between) := rfl
  rw [scan, hopen, Option.bind_some, scan_append, scan_flatMap h, Option.bind_some,
    List.nil_append, scan, hclose, Option.bind_some, Option.map_map, Option.map_map]
  rfl

theorem scan_quoted_of_refused (h : ∀ c, Stands (e c) c ∨ Refused (e c))
    (hs : ∃ c ∈ s, Refused (e c)) (text : List Char) :
    scan .between ('"' :: (s.flatMap e ++ '"' :: text)) = none := by
  have hopen : Mode.between.step '"' = some ([], .string []) := rfl
  rw [scan, hopen, Option.bind_some, scan_append, scan_flatMap_of_refused h hs]
  rfl

end Strings

end ScalableBooking.JsonText
