import Mathlib.Data.List.TakeWhile
import Mathlib.Tactic.IntervalCases
import ScalableBooking.Lib.JsonText

/-!
# Writing a JSON value

The text of a value without any space in it, as `JSON.stringify` writes it, is the texts of its
tokens one after another. Reading goes back in the same two steps. A list of tokens is scanned back
from its text if no two words stand side by side (`tokens_texts`), and the tokens of a value are
read as this value (`value?_tokens`). So a value is read back from its text (`parse_stringify`).
-/

namespace ScalableBooking.JsonText

/-! ## Tokens to text -/

/-- What is written for a character of a string. -/
def escape (c : Char) : List Char :=
  if c = '"' then ['\\', '"']
  else if c = '\\' then ['\\', '\\']
  else if c = '\x08' then ['\\', 'b']
  else if c = '\x0c' then ['\\', 'f']
  else if c = '\n' then ['\\', 'n']
  else if c = '\r' then ['\\', 'r']
  else if c = '\t' then ['\\', 't']
  else if IsControl c then
    ['\\', 'u', '0', '0', Nat.digitChar (c.toNat / 16), Nat.digitChar (c.toNat % 16)]
  else [c]

theorem stands_unit {c : Char} (h : IsControl c) :
    Stands ['\\', 'u', '0', '0', Nat.digitChar (c.toNat / 16), Nat.digitChar (c.toNat % 16)] c := by
  intro s
  have hlt : c.toNat < 32 := h
  have hhigh := Hex.digit?_digitChar (n := c.toNat / 16) (by omega)
  have hlow := Hex.digit?_digitChar (n := c.toNat % 16) (by omega)
  have hzero : Hex.digit? '0' = some 0 := rfl
  have hend : endUnit none s c.toNat = some (.string (s ++ [c])) := by
    rw [endUnit, if_neg (by omega), if_neg (by omega), Char.ofNat_toNat]
  have hn : 16 * (16 * (16 * (16 * 0 + 0) + 0) + c.toNat / 16) + c.toNat % 16 = c.toNat := by
    omega
  simp only [scan, Mode.step, hzero, hhigh, hlow, hn, hend, Option.bind_some, Option.map_some,
    reduceCtorEq, reduceIte, Nat.reduceEqDiff, Char.reduceEq]
  rfl

theorem stands_escape (c : Char) : Stands (escape c) c := by
  unfold escape
  split_ifs with h₁ h₂ h₃ h₄ h₅ h₆ h₇ hcontrol
  · exact stands_escaped (by rw [h₁]; rfl)
  · exact stands_escaped (by rw [h₂]; rfl)
  · exact stands_escaped (by rw [h₃]; rfl)
  · exact stands_escaped (by rw [h₄]; rfl)
  · exact stands_escaped (by rw [h₅]; rfl)
  · exact stands_escaped (by rw [h₆]; rfl)
  · exact stands_escaped (by rw [h₇]; rfl)
  · exact stands_unit hcontrol
  · exact stands_self h₁ h₂ hcontrol

/-- The text of a token. -/
def Token.text : Token → List Char
  | beginArray => ['[']
  | endArray => [']']
  | beginObject => ['\x7b']
  | endObject => ['\x7d']
  | nameSeparator => [':']
  | valueSeparator => [',']
  | str s => '"' :: (s.flatMap escape ++ ['"'])
  | word w => w

/-- A character that can stand in a word. -/
def isWordChar (c : Char) : Bool := !isSpace c && c != '"' && (structural? c).isNone

/-- A run of such characters. -/
def IsWord (w : List Char) : Prop := w ≠ [] ∧ ∀ c ∈ w, isWordChar c = true

/-- The tokens do not begin with a word. -/
def NoWord (ts : List Token) : Prop := ∀ w ts', ts ≠ .word w :: ts'

/-- No two words stand side by side. -/
def Separated : List Token → Prop
  | [] => True
  | .word w :: ts => IsWord w ∧ NoWord ts ∧ Separated ts
  | _ :: ts => Separated ts

mutual

/-- The tokens of a value. -/
def Json.tokens : Json → List Token
  | .null => [.word ['n', 'u', 'l', 'l']]
  | .bool b => [.word (if b then ['t', 'r', 'u', 'e'] else ['f', 'a', 'l', 's', 'e'])]
  | .number text => [.word text]
  | .str s => [.str s]
  | .array items => .beginArray :: ((itemTokens items).tail ++ [.endArray])
  | .object members => .beginObject :: ((memberTokens members).tail ++ [.endObject])

/-- The tokens of some items, with a separator before each. -/
def itemTokens : List Json → List Token
  | [] => []
  | v :: items => .valueSeparator :: (v.tokens ++ itemTokens items)

/-- The same for members. -/
def memberTokens : List (List Char × Json) → List Token
  | [] => []
  | (k, v) :: members =>
      .valueSeparator :: .str k :: .nameSeparator :: (v.tokens ++ memberTokens members)

end

/-- `JSON.stringify` -/
def Json.stringify (v : Json) : List Char := v.tokens.flatMap Token.text

mutual

/-- Every number in the value is one. -/
def Json.Valid : Json → Prop
  | .number text => isNumber text = true
  | .array items => ItemsValid items
  | .object members => MembersValid members
  | .null | .bool _ | .str _ => True

def ItemsValid : List Json → Prop
  | [] => True
  | v :: items => v.Valid ∧ ItemsValid items

def MembersValid : List (List Char × Json) → Prop
  | [] => True
  | (_, v) :: members => v.Valid ∧ MembersValid members

end

/-! ## Scanning a text back -/

/-- A token that ends by itself. -/
theorem tokens_append {x text : List Char} {t : Token}
    (h : scan .between (x ++ text) = (scan .between text).map fun r => (t :: r.1, r.2)) :
    tokens (x ++ text) = (tokens text).map (t :: ·) := by
  unfold tokens
  rw [h]
  cases scan .between text with
  | none => rfl
  | some r =>
    obtain ⟨ts, m⟩ := r
    cases m <;> rfl

/-- A structural character is one. -/
theorem scan_structural {c : Char} {t : Token} (hspace : isSpace c = false) (hquote : c ≠ '"')
    (h : structural? c = some t) (text : List Char) :
    scan .between (c :: text) = (scan .between text).map fun r => (t :: r.1, r.2) := by
  have hstep : Mode.between.step c = some ([t], .between) := by
    rw [Mode.step, stepBetween, hspace, if_neg Bool.false_ne_true, if_neg hquote, h]
  rw [scan, hstep]
  rfl

/-- The rest of a word. -/
theorem scan_word {w' : List Char} (h : ∀ c ∈ w', isWordChar c = true) (w text : List Char) :
    scan (.word w) (w' ++ text) = scan (.word (w ++ w')) text := by
  induction w' generalizing w with
  | nil => rw [List.append_nil, List.nil_append]
  | cons c w' ih =>
    have hc := h c List.mem_cons_self
    have hstep : (Mode.word w).step c = some ([], .word (w ++ [c])) := by
      simp only [isWordChar, Bool.and_eq_true, Bool.not_eq_true', bne_iff_ne, ne_eq] at hc
      rw [Mode.step, if_neg]
      simp [hc.1.1, hc.1.2, Option.isNone_iff_eq_none.mp hc.2]
    rw [List.cons_append, scan, hstep, Option.bind_some,
      ih (fun d hd => h d (List.mem_cons_of_mem c hd))]
    simp

/-- A word is scanned up to the end, or to a character that ends it. -/
theorem tokens_word {w text : List Char} (hw : IsWord w)
    (hend : ∀ c text', text = c :: text' → isWordChar c = false) :
    tokens (w ++ text) = (tokens text).map (.word w :: ·) := by
  obtain ⟨c, w, rfl⟩ := List.exists_cons_of_ne_nil hw.1
  have hc := hw.2 c List.mem_cons_self
  have hstep : Mode.between.step c = some ([], .word [c]) := by
    simp only [isWordChar, Bool.and_eq_true, Bool.not_eq_true', bne_iff_ne, ne_eq] at hc
    rw [Mode.step, stepBetween, hc.1.1, if_neg Bool.false_ne_true, if_neg hc.1.2,
      Option.isNone_iff_eq_none.mp hc.2]
  have hscan : scan .between (c :: w ++ text) = scan (.word (c :: w)) text := by
    rw [List.cons_append, scan, hstep, Option.bind_some,
      scan_word fun d hd => hw.2 d (List.mem_cons_of_mem c hd)]
    simp
  cases text with
  | nil =>
    unfold tokens
    rw [hscan]
    rfl
  | cons d text =>
    have hd := hend d text rfl
    have hword : scan (.word (c :: w)) (d :: text) =
        (scan .between (d :: text)).map fun r => (.word (c :: w) :: r.1, r.2) := by
      have hstep : (Mode.word (c :: w)).step d =
          some (.word (c :: w) :: (stepBetween d).1, (stepBetween d).2) := by
        rw [Mode.step, if_pos]
        revert hd
        unfold isWordChar bne
        cases isSpace d <;> cases d == '"' <;> cases structural? d <;> simp
      rw [scan, scan, hstep, Mode.step, Option.bind_some, Option.bind_some, Option.map_map]
      rfl
    exact tokens_append (hscan.trans hword)

/-- The text of any other token begins with a character that ends a word. -/
theorem head_text {t : Token} (h : ∀ w, t ≠ .word w) :
    ∃ c text, t.text = c :: text ∧ isWordChar c = false := by
  cases t with
  | word w => exact absurd rfl (h w)
  | _ => exact ⟨_, _, rfl, rfl⟩

/-- What is scanned back is what was written. -/
theorem tokens_texts {ts : List Token} (h : Separated ts) :
    tokens (ts.flatMap Token.text) = some ts := by
  induction ts with
  | nil => rfl
  | cons t ts ih =>
    rw [List.flatMap_cons]
    have hall (hts : Separated ts) (happend : tokens (t.text ++ ts.flatMap Token.text) =
        (tokens (ts.flatMap Token.text)).map (t :: ·)) :
        tokens (t.text ++ ts.flatMap Token.text) = some (t :: ts) := by
      rw [happend, ih hts]
      rfl
    cases t with
    | beginArray | endArray | beginObject | endObject | nameSeparator | valueSeparator =>
      exact hall h (tokens_append (scan_structural rfl (by decide) rfl _))
    | str s =>
      refine hall h (tokens_append ?_)
      rw [Token.text, List.cons_append, List.append_assoc]
      exact scan_quoted (fun c _ => stands_escape c) _
    | word w =>
      obtain ⟨hw, hnext, hts⟩ := h
      refine hall hts (tokens_word hw fun c text htext => ?_)
      cases ts with
      | nil => cases htext
      | cons t ts =>
        obtain ⟨d, text', ht, hd⟩ := head_text (t := t) fun w' heq => hnext w' ts (by rw [heq])
        rw [List.flatMap_cons, ht, List.cons_append] at htext
        rwa [← (List.cons.inj htext).1]

/-! ## Reading tokens back -/

theorem word?_of_isNumber {w : List Char} (h : isNumber w = true) : word? w = some (.number w) := by
  have hne : ∀ w', isNumber w' = false → w ≠ w' := by
    rintro w' hw' rfl
    rw [hw'] at h
    cases h
  unfold word?
  rw [if_neg (hne _ (by decide)), if_neg (hne _ (by decide)), if_neg (hne _ (by decide)), if_pos h]

/-- The first item of an array is read like any value. -/
theorem foldlM_firstItem (v : Json) (stack : List Frame) (rest : List Token) :
    (v.tokens ++ rest).foldlM Reader.step (.firstItem stack) =
      (v.tokens ++ rest).foldlM Reader.step (.value (.array [] :: stack)) := by
  cases v <;> rfl

mutual

/-- A value is read from its tokens, wherever it stands. -/
theorem foldlM_tokens (v : Json) (h : v.Valid) (stack : List Frame) (rest : List Token) :
    (v.tokens ++ rest).foldlM Reader.step (.value stack) =
      rest.foldlM Reader.step (.read v stack) := by
  match v, h with
  | .null, _ => rfl
  | .bool b, _ => cases b <;> rfl
  | .number text, h =>
    show ((word? text).map fun v => Reader.read v stack) >>= _ = _
    rw [word?_of_isNumber h]
    rfl
  | .str s, _ => rfl
  | .array [], _ => rfl
  | .array (w :: items), ⟨hw, hitems⟩ =>
    have hfirst := foldlM_firstItem w stack (itemTokens items ++ .endArray :: rest)
    rw [foldlM_tokens w hw, foldlM_items items hitems] at hfirst
    rw [Json.tokens, itemTokens, List.tail_cons, List.cons_append, List.append_assoc,
      List.append_assoc]
    exact hfirst
  | .object [], _ => rfl
  | .object ((k, w) :: members), ⟨hw, hmembers⟩ =>
    have hfirst := foldlM_tokens w hw (.object [] k :: stack)
      (memberTokens members ++ .endObject :: rest)
    rw [foldlM_members members hmembers] at hfirst
    rw [Json.tokens, memberTokens, List.tail_cons, List.cons_append, List.cons_append,
      List.cons_append, List.cons_append, List.cons_append, List.append_assoc, List.append_assoc]
    exact hfirst

theorem foldlM_items (items : List Json) (h : ItemsValid items) (v : Json) (acc : List Json)
    (stack : List Frame) (rest : List Token) :
    (itemTokens items ++ .endArray :: rest).foldlM Reader.step (.read v (.array acc :: stack)) =
      rest.foldlM Reader.step (.read (.array ((v :: acc).reverse ++ items)) stack) := by
  match items, h with
  | [], _ =>
    rw [List.append_nil]
    rfl
  | w :: items, ⟨hw, hitems⟩ =>
    have hnext := foldlM_tokens w hw (.array (v :: acc) :: stack)
      (itemTokens items ++ .endArray :: rest)
    rw [foldlM_items items hitems] at hnext
    rw [itemTokens, List.cons_append, List.append_assoc]
    rw [List.reverse_cons, List.append_assoc] at hnext
    exact hnext

theorem foldlM_members (members : List (List Char × Json)) (h : MembersValid members) (v : Json)
    (k : List Char) (acc : List (List Char × Json)) (stack : List Frame) (rest : List Token) :
    (memberTokens members ++ .endObject :: rest).foldlM Reader.step
        (.read v (.object acc k :: stack)) =
      rest.foldlM Reader.step (.read (.object (((k, v) :: acc).reverse ++ members)) stack) := by
  match members, h with
  | [], _ =>
    rw [List.append_nil]
    rfl
  | (l, w) :: members, ⟨hw, hmembers⟩ =>
    have hnext := foldlM_tokens w hw (.object ((k, v) :: acc) l :: stack)
      (memberTokens members ++ .endObject :: rest)
    rw [foldlM_members members hmembers] at hnext
    rw [memberTokens, List.cons_append, List.cons_append, List.cons_append, List.append_assoc]
    rw [List.reverse_cons, List.append_assoc] at hnext
    exact hnext

end

/-- The tokens of a value are read as this value. -/
theorem value?_tokens {v : Json} (h : v.Valid) : value? v.tokens = some v := by
  have hread := foldlM_tokens v h [] []
  rw [List.append_nil] at hread
  unfold value?
  rw [hread]
  rfl

/-! ## The tokens of a value -/

/-- A character of a number. -/
def isNumberChar (c : Char) : Bool := c.isDigit || c ∈ ['-', '+', '.', 'e', 'E']

theorem isWordChar_of_isNumberChar {c : Char} (h : isNumberChar c = true) :
    isWordChar c = true := by
  have hne : ∀ d, isNumberChar d = false → c ≠ d := by
    rintro d hd rfl
    rw [hd] at h
    cases h
  simp [isWordChar, isSpace, structural?, hne ' ' rfl, hne '\t' rfl, hne '\n' rfl, hne '\r' rfl,
    hne '"' rfl, hne '[' rfl, hne ']' rfl, hne '\x7b' rfl, hne '\x7d' rfl, hne ':' rfl, hne ',' rfl]

/-- What the function takes off a word is made of such characters. -/
def Consumes (f : List Char → Option (List Char)) : Prop :=
  ∀ w rest, f w = some rest → ∃ x, w = x ++ rest ∧ ∀ c ∈ x, isNumberChar c = true

/-- One more character before the others. -/
theorem Consumes.cons {f : List Char → Option (List Char)} (hf : Consumes f) {c : Char}
    {w rest : List Char} (hc : isNumberChar c = true) (h : f w = some rest) :
    ∃ x, c :: w = x ++ rest ∧ ∀ d ∈ x, isNumberChar d = true := by
  obtain ⟨x, rfl, hx⟩ := hf w rest h
  exact ⟨c :: x, rfl, List.forall_mem_cons.mpr ⟨hc, hx⟩⟩

theorem consumes_digits : Consumes digits? := by
  rintro (_ | ⟨c, w⟩) rest h
  · cases h
  unfold digits? at h
  dsimp only at h
  split at h
  case isFalse => cases h
  case isTrue hc =>
    cases h
    refine ⟨c :: w.takeWhile Char.isDigit,
      by rw [List.cons_append, List.takeWhile_append_dropWhile],
      List.forall_mem_cons.mpr ⟨?_, fun d hd => ?_⟩⟩
    · rw [isNumberChar, hc, Bool.true_or]
    · rw [isNumberChar, List.mem_takeWhile_imp hd, Bool.true_or]

theorem consumes_integer : Consumes integer? := by
  intro w rest h
  unfold integer? at h
  split at h
  · cases h
    exact ⟨['0'], rfl, List.all_eq_true.mp rfl⟩
  · exact consumes_digits _ rest h

theorem consumes_fraction : Consumes fraction? := by
  intro w rest h
  unfold fraction? at h
  split at h
  · exact consumes_digits.cons rfl h
  · cases h
    exact ⟨[], rfl, by simp⟩

theorem consumes_exponent : Consumes exponent? := by
  rintro (_ | ⟨c, w⟩) rest h
  · cases h
    exact ⟨[], rfl, by simp⟩
  unfold exponent? at h
  dsimp only at h
  by_cases hexp : c = 'e' ∨ c = 'E'
  · have hc : isNumberChar c = true := by
      obtain rfl | rfl := hexp <;> rfl
    rw [if_pos hexp] at h
    split at h
    · obtain ⟨x, hx, hall⟩ := consumes_digits.cons (c := '+') rfl h
      exact ⟨c :: x, by rw [hx, List.cons_append], List.forall_mem_cons.mpr ⟨hc, hall⟩⟩
    · obtain ⟨x, hx, hall⟩ := consumes_digits.cons (c := '-') rfl h
      exact ⟨c :: x, by rw [hx, List.cons_append], List.forall_mem_cons.mpr ⟨hc, hall⟩⟩
    · exact consumes_digits.cons hc h
  · rw [if_neg hexp] at h
    cases h
    exact ⟨[], rfl, by simp⟩

theorem Consumes.bind {f g : List Char → Option (List Char)} (hf : Consumes f) (hg : Consumes g) :
    Consumes fun w => (f w).bind g := by
  intro w rest h
  obtain ⟨w', hw, hw'⟩ := Option.bind_eq_some_iff.mp h
  obtain ⟨x, rfl, hx⟩ := hf w w' hw
  obtain ⟨y, rfl, hy⟩ := hg w' rest hw'
  refine ⟨x ++ y, by rw [List.append_assoc], fun c hc => ?_⟩
  obtain hc | hc := List.mem_append.mp hc
  · exact hx c hc
  · exact hy c hc

/-- A number is a word. -/
theorem isWord_of_isNumber {w : List Char} (h : isNumber w = true) : IsWord w := by
  have hne : w ≠ [] := by
    rintro rfl
    exact absurd h (by decide)
  refine ⟨hne, fun c hc => isWordChar_of_isNumberChar ?_⟩
  obtain ⟨x, hx, hall⟩ := (consumes_integer.bind consumes_fraction).bind consumes_exponent _ []
    (eq_of_beq h)
  rw [List.append_nil] at hx
  by_cases hminus : w.head? = some '-'
  · -- the sign is taken off before the rest
    rw [if_pos hminus] at hx
    obtain ⟨d, w, rfl⟩ := List.exists_cons_of_ne_nil hne
    obtain rfl := Option.some.inj hminus
    obtain rfl | hc := List.mem_cons.mp hc
    · rfl
    · exact hall c (hx ▸ hc)
  · rw [if_neg hminus] at hx
    exact hall c (hx ▸ hc)

theorem noWord_items (items : List Json) (rest : List Token) :
    NoWord (itemTokens items ++ .endArray :: rest) := by
  cases items <;> nofun

theorem noWord_members (members : List (List Char × Json)) (rest : List Token) :
    NoWord (memberTokens members ++ .endObject :: rest) := by
  cases members <;> nofun

mutual

theorem separated_tokens (v : Json) (h : v.Valid) {rest : List Token} (hrest : Separated rest)
    (hword : NoWord rest) : Separated (v.tokens ++ rest) := by
  match v, h with
  | .null, _ => exact ⟨⟨List.cons_ne_nil _ _, List.all_eq_true.mp rfl⟩, hword, hrest⟩
  | .bool b, _ =>
    cases b <;> exact ⟨⟨List.cons_ne_nil _ _, List.all_eq_true.mp rfl⟩, hword, hrest⟩
  | .number text, h => exact ⟨isWord_of_isNumber h, hword, hrest⟩
  | .str s, _ => exact hrest
  | .array [], _ => exact hrest
  | .array (w :: items), ⟨hw, hitems⟩ =>
    have hfirst := separated_tokens w hw (separated_items items hitems hrest)
      (noWord_items items rest)
    rw [Json.tokens, itemTokens, List.tail_cons, List.cons_append, List.append_assoc,
      List.append_assoc]
    exact hfirst
  | .object [], _ => exact hrest
  | .object ((k, w) :: members), ⟨hw, hmembers⟩ =>
    have hfirst := separated_tokens w hw (separated_members members hmembers hrest)
      (noWord_members members rest)
    rw [Json.tokens, memberTokens, List.tail_cons, List.cons_append, List.cons_append,
      List.cons_append, List.cons_append, List.cons_append, List.append_assoc, List.append_assoc]
    exact hfirst

theorem separated_items (items : List Json) (h : ItemsValid items) {rest : List Token}
    (hrest : Separated rest) : Separated (itemTokens items ++ .endArray :: rest) := by
  match items, h with
  | [], _ => exact hrest
  | w :: items, ⟨hw, hitems⟩ =>
    have hnext := separated_tokens w hw (separated_items items hitems hrest)
      (noWord_items items rest)
    rw [itemTokens, List.cons_append, List.append_assoc]
    exact hnext

theorem separated_members (members : List (List Char × Json)) (h : MembersValid members)
    {rest : List Token} (hrest : Separated rest) :
    Separated (memberTokens members ++ .endObject :: rest) := by
  match members, h with
  | [], _ => exact hrest
  | (k, w) :: members, ⟨hw, hmembers⟩ =>
    have hnext := separated_tokens w hw (separated_members members hmembers hrest)
      (noWord_members members rest)
    rw [memberTokens, List.cons_append, List.cons_append, List.cons_append, List.append_assoc]
    exact hnext

end

/-! ## Natural numbers -/

/-- A natural number, in decimal digits. -/
def Json.ofNat (n : ℕ) : Json := .number (Nat.toDigits 10 n)

/-- Only zero begins with a zero. -/
theorem head?_toDigits_ne_zero (n : ℕ) (h : 0 < n) : (Nat.toDigits 10 n).head? ≠ some '0' := by
  induction n using Nat.strongRecOn with
  | ind n ih =>
    obtain hlt | hle := Nat.lt_or_ge n 10
    · rw [Nat.toDigits_of_lt_base hlt]
      interval_cases n <;> decide
    · rw [Nat.toDigits_of_base_le (by decide) hle,
        List.head?_append_of_ne_nil _ Nat.toDigits_ne_nil]
      exact ih (n / 10) (Nat.div_lt_self h (by decide)) (Nat.div_pos hle (by decide))

theorem Json.valid_ofNat (n : ℕ) : (Json.ofNat n).Valid := by
  show isNumber (Nat.toDigits 10 n) = true
  obtain rfl | hpos := Nat.eq_zero_or_pos n
  · rw [Nat.toDigits_zero]
    decide
  obtain ⟨c, w, hw⟩ := List.exists_cons_of_ne_nil (Nat.toDigits_ne_nil (n := n) (b := 10))
  have hdigit : ∀ d ∈ c :: w, d.isDigit = true := by
    intro d hd
    exact Nat.isDigit_of_mem_toDigits (b := 10) (n := n) (by decide) (by decide) (hw ▸ hd)
  have hc := hdigit c List.mem_cons_self
  have hzero : c ≠ '0' := by
    rintro rfl
    exact head?_toDigits_ne_zero n hpos (by rw [hw, List.head?_cons])
  have hminus : (c :: w).head? ≠ some '-' := by
    rintro ⟨⟩
    exact absurd hc (by decide)
  have hrest : w.dropWhile Char.isDigit = [] :=
    List.dropWhile_eq_nil_iff.mpr fun d hd => hdigit d (List.mem_cons_of_mem c hd)
  have hinteger : integer? (c :: w) = some [] := by
    rw [integer?, digits?, if_pos hc, hrest]
    rintro _ ⟨⟩
    exact hzero rfl
  rw [hw, isNumber, if_neg hminus, hinteger]
  rfl

/-! ## The round trip -/

/-- A value is read back from its text. -/
theorem parse_stringify {v : Json} (h : v.Valid) : parse v.stringify = some v := by
  have hsep : Separated v.tokens := by
    rw [← List.append_nil v.tokens]
    exact separated_tokens v h trivial nofun
  rw [parse, Json.stringify, tokens_texts hsep, Option.bind_some, value?_tokens h]

end ScalableBooking.JsonText
