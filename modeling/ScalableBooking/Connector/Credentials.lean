import Mathlib.Data.List.Basic
import ScalableBooking.Lib.Splice
import ScalableBooking.Lib.JsonText

/-!
# The credentials of the database connector

The connector is registered with a JSON text that is made from a template: an awk program writes
the user, the password and the name of the database, as they are in its environment, for the three
placeholders. The program is in the repository twice, for docker compose and for Kubernetes. The two
copies differ in the names of the environment variables only.

The values are escaped before they are written, so that any character survives. Two things are
missed:

* JSON does not allow the other control characters in a string either, and `jsonescape` leaves them
  as they are;
* the placeholders are replaced one after the other in the whole text, so a user name or a password
  in which a later placeholder stands is changed by its replacement.

The text is a list of characters. The program compares with ASCII characters only, and in UTF-8 no
byte of another character is one of these, so it is the same for an awk that works on bytes.
-/

namespace ScalableBooking.Connector

open JsonText

/-- A statement about the characters of a list is decided on the list, not on all characters. -/
local instance decidableForallMem (p : Char → Prop) [DecidablePred p] (s : List Char) :
    Decidable (∀ c ∈ s, p c) := List.decidableBAll p s

/-! ## The program -/

/-- The lines of `postgres-connector.json`. -/
def template : List String :=
  ["\x7b",
    "  \"name\": \"booking-system-connector\",",
    "  \"config\": \x7b",
    "    \"connector.class\": \"io.debezium.connector.postgresql.PostgresConnector\",",
    "    \"database.hostname\": \"postgres\",",
    "    \"database.port\": \"5432\",",
    "    \"database.user\": \"__DB_USER__\",",
    "    \"database.password\": \"__DB_PASSWORD__\",",
    "    \"database.dbname\": \"__DB_NAME__\",",
    "    \"topic.prefix\": \"booking-system\",",
    "    \"table.include.list\": \"public.seats\",",
    "    \"plugin.name\": \"pgoutput\",",
    "    \"snapshot.mode\": \"initial\",",
    "    \"key.converter\": \"org.apache.kafka.connect.json.JsonConverter\",",
    "    \"value.converter\": \"org.apache.kafka.connect.json.JsonConverter\",",
    "    \"key.converter.schemas.enable\": \"false\",",
    "    \"value.converter.schemas.enable\": \"false\"",
    "  \x7d",
    "\x7d"]

/-- What `jsonescape` appends for a character. -/
def jsonescapeChar (c : Char) : List Char :=
  if c = '\\' then ['\\', '\\']
  else if c = '"' then ['\\', '"']
  else if c = '\n' then ['\\', 'n']
  else if c = '\t' then ['\\', 't']
  else if c = '\r' then ['\\', 'r']
  else if c = '\x08' then ['\\', 'b']
  else if c = '\x0c' then ['\\', 'f']
  else [c]

def jsonescape (s : List Char) : List Char :=
  s.foldl (fun out c => out ++ jsonescapeChar c) []

/-- awk's `index`: where `ph` first stands in `s`, counted from 1. It is 0 if `ph` is nowhere, or is
empty. -/
def index (s ph : List Char) : ℕ :=
  match s with
  | [] => 0
  | c :: s =>
      if ph ≠ [] ∧ ph <+: c :: s then 1
      else match index s ph with
        | 0 => 0
        | i + 1 => i + 2

theorem ne_nil_of_index_pos {s ph : List Char} (h : 0 < index s ph) : s ≠ [] ∧ ph ≠ [] := by
  induction s with
  | nil => exact absurd h (lt_irrefl 0)
  | cons c s ih =>
    refine ⟨List.cons_ne_nil c s, ?_⟩
    rw [index] at h
    split at h
    · next hpre => exact hpre.1
    · split at h
      · exact absurd h (lt_irrefl 0)
      · next i hi => exact (ih (hi ▸ Nat.succ_pos i)).2

/-- The loop of `replace`, with what it has written to `out`. -/
def replaceLoop (s ph val out : List Char) : List Char :=
  if 0 < index s ph then
    replaceLoop (s.drop (index s ph - 1 + ph.length)) ph val
      (out ++ s.take (index s ph - 1) ++ val)
  else out ++ s
termination_by s.length
decreasing_by
  next h =>
    obtain ⟨hs, hph⟩ := ne_nil_of_index_pos h
    have := List.length_pos_of_ne_nil hs
    have := List.length_pos_of_ne_nil hph
    rw [List.length_drop]
    omega

def replace (s ph val : List Char) : List Char := replaceLoop s ph val []

def dbUser : List Char := "__DB_USER__".toList

def dbPassword : List Char := "__DB_PASSWORD__".toList

def dbName : List Char := "__DB_NAME__".toList

/-- The environment variables that one of the copies reads. -/
structure Variables where
  user : String
  pass : String
  db : String

/-- Those of `register-connector.sh`. -/
def compose : Variables := ⟨"POSTGRES_USER", "POSTGRES_PASSWORD", "POSTGRES_DB"⟩

/-- Those of the job in `20-kafka-connect.yaml`. -/
def k8s : Variables := ⟨"DB_USER", "DB_PASSWORD", "DB_NAME"⟩

/-- The lines as the program collects them. -/
def collect (lines : List String) : List Char :=
  lines.foldl (fun t line => t ++ line.toList ++ ['\n']) []

/-- What the program prints. -/
def awk (vars : Variables) (ENVIRON : String → List Char) (lines : List String) : List Char :=
  let t := collect lines
  let user := ENVIRON vars.user
  let pass := ENVIRON vars.pass
  let db := ENVIRON vars.db
  let t := replace t dbUser (jsonescape user)
  let t := replace t dbPassword (jsonescape pass)
  let t := replace t dbName (jsonescape db)
  t

/-! ## What it is for -/

/-- A field of the template that is not a credential. -/
def own (field : String × String) : List Char × Json := (field.1.toList, .str field.2.toList)

def fieldsBefore : List (String × String) :=
  [("connector.class", "io.debezium.connector.postgresql.PostgresConnector"),
    ("database.hostname", "postgres"),
    ("database.port", "5432")]

def fieldsAfter : List (String × String) :=
  [("topic.prefix", "booking-system"),
    ("table.include.list", "public.seats"),
    ("plugin.name", "pgoutput"),
    ("snapshot.mode", "initial"),
    ("key.converter", "org.apache.kafka.connect.json.JsonConverter"),
    ("value.converter", "org.apache.kafka.connect.json.JsonConverter"),
    ("key.converter.schemas.enable", "false"),
    ("value.converter.schemas.enable", "false")]

/-- The document of the template with these credentials. -/
def document (user pass db : List Char) : Json :=
  .object
    [own ("name", "booking-system-connector"),
      ("config".toList, .object (fieldsBefore.map own ++
        [("database.user".toList, .str user), ("database.password".toList, .str pass),
          ("database.dbname".toList, .str db)] ++ fieldsAfter.map own))]

/-- The text is the template's document with these credentials, and nothing else is changed. -/
def RoundTrips (text user pass db : List Char) : Prop := parse text = some (document user pass db)

/-- A control character for which `jsonescape` has no branch. -/
def Forbidden (c : Char) : Prop := IsControl c ∧ c ∉ ['\n', '\t', '\r', '\x08', '\x0c']

instance : DecidablePred Forbidden := fun c =>
  inferInstanceAs (Decidable (IsControl c ∧ c ∉ ['\n', '\t', '\r', '\x08', '\x0c']))

/-- No character of the value is forbidden. -/
def Clean (s : List Char) : Prop := ∀ c ∈ s, ¬ Forbidden c

instance : DecidablePred Clean := fun s => inferInstanceAs (Decidable (∀ c ∈ s, ¬ Forbidden c))

/-- The placeholder does not stand in the value, or stands for itself. -/
def Untouched (ph val s : List Char) : Prop := ph <:+: s → val = ph

/-- The user name is changed by the password that is written in it, and then changed back by the
name of the database. (So it is with the user and the database `__DB__DB_PASSWORD____` and the
password `_NAME`.) -/
def PutBack (user pass db : List Char) : Prop :=
  ∃ s ≠ user, splice dbPassword pass user = s ∧ splice dbName db s = user

/-- No value is changed by the replacement of a later placeholder. -/
def Unmixed (user pass db : List Char) : Prop :=
  Untouched dbName db pass ∧
    (Untouched dbPassword pass user ∧ Untouched dbName db user ∨ PutBack user pass db)

/-! ## The loop of `replace` -/

section Replace

variable {s ph val out : List Char}

theorem index_cons_of_hit {c : Char} (hph : ph ≠ []) (h : ph <+: c :: s) :
    index (c :: s) ph = 1 := by
  rw [index, if_pos ⟨hph, h⟩]

theorem index_cons_of_not {c : Char} (h : ¬ ph <+: c :: s) :
    index (c :: s) ph = if index s ph = 0 then 0 else index s ph + 1 := by
  rw [index, if_neg fun h' => h h'.2]
  cases index s ph <;> rfl

/-- Where nothing is found, nothing is to be replaced. -/
theorem splice_of_index_eq_zero (hph : ph ≠ []) (h : index s ph = 0) : splice ph val s = s := by
  induction s with
  | nil => exact splice_nil
  | cons c s ih =>
    by_cases hpre : ph <+: c :: s
    · rw [index_cons_of_hit hph hpre] at h
      exact absurd h one_ne_zero
    · rw [index_cons_of_not hpre] at h
      have hzero : index s ph = 0 := by
        by_contra hne
        rw [if_neg hne] at h
        exact absurd h (Nat.succ_ne_zero _)
      rw [splice_cons_of_not hpre, ih hzero]

/-- What is found first is the first to be replaced. -/
theorem splice_of_index_pos (hph : ph ≠ []) (h : 0 < index s ph) :
    splice ph val s = s.take (index s ph - 1) ++ val ++
      splice ph val (s.drop (index s ph - 1 + ph.length)) := by
  induction s with
  | nil => exact absurd h (lt_irrefl 0)
  | cons c s ih =>
    by_cases hpre : ph <+: c :: s
    · -- found here
      rw [index_cons_of_hit hph hpre]
      obtain ⟨t, ht⟩ := hpre
      rw [← ht, splice_append hph]
      simp
    · rw [index_cons_of_not hpre] at h ⊢
      by_cases hzero : index s ph = 0
      · rw [if_pos hzero] at h
        exact absurd h (lt_irrefl 0)
      · -- found further on: the position and the text before it grow by one
        rw [if_neg hzero, splice_cons_of_not hpre, ih (Nat.pos_of_ne_zero hzero)]
        obtain ⟨i, hi⟩ := Nat.exists_eq_add_one_of_ne_zero hzero
        rw [hi, Nat.add_sub_cancel, Nat.add_sub_cancel, Nat.add_right_comm, List.take_succ_cons,
          List.drop_succ_cons, List.cons_append, List.cons_append]

theorem replaceLoop_eq (hph : ph ≠ []) (s out : List Char) :
    replaceLoop s ph val out = out ++ splice ph val s := by
  induction s, out using replaceLoop.induct ph val with
  | case1 s out h ih =>
    -- the round writes what comes before the occurrence, and the value for it
    rw [replaceLoop, if_pos h, ih, splice_of_index_pos hph h, List.append_assoc, List.append_assoc,
      List.append_assoc]
  | case2 s out h =>
    rw [replaceLoop, if_neg h, splice_of_index_eq_zero hph (Nat.eq_zero_of_not_pos h)]

/-- The loop writes the value for each occurrence of the placeholder. -/
theorem replace_eq (hph : ph ≠ []) (s val : List Char) : replace s ph val = splice ph val s := by
  rw [replace, replaceLoop_eq hph, List.nil_append]

end Replace

/-! ## The escapes -/

/-- The letters that follow a backslash. -/
def letters : List Char := ['\\', '"', 'n', 't', 'r', 'b', 'f']

theorem jsonescape_eq (s : List Char) : jsonescape s = s.flatMap jsonescapeChar := by
  rw [jsonescape, List.flatMap_eq_foldl]

/-- A character becomes a backslash and a letter that stand for it, or it has no branch. -/
theorem jsonescapeChar_cases (c : Char) :
    (∃ x ∈ letters, escaped? x = some c ∧ jsonescapeChar c = ['\\', x]) ∧ ¬ Forbidden c ∨
      jsonescapeChar c = [c] ∧ c ≠ '"' ∧ c ≠ '\\' ∧ (IsControl c → Forbidden c) := by
  unfold jsonescapeChar
  split_ifs with h₁ h₂ h₃ h₄ h₅ h₆ h₇
  · subst h₁
    exact .inl ⟨⟨'\\', by decide, rfl, rfl⟩, by decide⟩
  · subst h₂
    exact .inl ⟨⟨'"', by decide, rfl, rfl⟩, by decide⟩
  · subst h₃
    exact .inl ⟨⟨'n', by decide, rfl, rfl⟩, by decide⟩
  · subst h₄
    exact .inl ⟨⟨'t', by decide, rfl, rfl⟩, by decide⟩
  · subst h₅
    exact .inl ⟨⟨'r', by decide, rfl, rfl⟩, by decide⟩
  · subst h₆
    exact .inl ⟨⟨'b', by decide, rfl, rfl⟩, by decide⟩
  · subst h₇
    exact .inl ⟨⟨'f', by decide, rfl, rfl⟩, by decide⟩
  · exact .inr ⟨rfl, h₂, h₁, fun h => ⟨h, by simp [h₃, h₄, h₅, h₆, h₇]⟩⟩

theorem stands_jsonescapeChar {c : Char} (h : ¬ Forbidden c) : Stands (jsonescapeChar c) c := by
  obtain ⟨⟨x, -, hx, heq⟩, -⟩ | ⟨heq, hquote, hbackslash, hcontrol⟩ := jsonescapeChar_cases c
  · exact heq ▸ stands_escaped hx
  · exact heq ▸ stands_self hquote hbackslash fun hc => h (hcontrol hc)

theorem refused_jsonescapeChar {c : Char} (h : Forbidden c) : Refused (jsonescapeChar c) := by
  obtain ⟨-, hnot⟩ | ⟨heq, -⟩ := jsonescapeChar_cases c
  · exact absurd h hnot
  · exact heq ▸ refused_of_isControl h.1

/-! ## The placeholders -/

def placeholders : List (List Char) := [dbUser, dbPassword, dbName]

theorem dbUser_mem : dbUser ∈ placeholders := by simp [placeholders]

theorem dbPassword_mem : dbPassword ∈ placeholders := by simp [placeholders]

theorem dbName_mem : dbName ∈ placeholders := by simp [placeholders]

/-- The escapes neither make a placeholder nor change one. -/
theorem isPlain : ∀ ph ∈ placeholders,
    ph ≠ [] ∧ (∀ x ∈ letters, x ∉ ph) ∧ ∀ c ∈ ph, jsonescapeChar c = [c] := by
  unfold placeholders dbUser dbPassword dbName
  rw [String.toList_ofList, String.toList_ofList, String.toList_ofList]
  decide +kernel

/-- A placeholder stands in an escaped value where it stands in the value. -/
theorem splice_jsonescape {ph : List Char} (hph : ph ∈ placeholders) (s val : List Char) :
    splice ph (jsonescape val) (jsonescape s) = jsonescape (splice ph val s) := by
  obtain ⟨hne, hletters, hplain⟩ := isPlain ph hph
  rw [jsonescape_eq, jsonescape_eq, jsonescape_eq]
  refine splice_flatMap hne hplain (fun c hc => ?_) s
  obtain ⟨⟨x, hx, -, heq⟩, -⟩ | ⟨heq, -⟩ := jsonescapeChar_cases c
  · -- an escape is made of letters that no placeholder holds
    rw [heq]
    refine ⟨List.cons_ne_nil '\\' [x], fun d hd => ?_⟩
    obtain rfl | rfl := List.mem_pair.mp hd
    · exact hletters '\\' (by decide)
    · exact hletters d hx
  · rw [heq]
    exact ⟨List.cons_ne_nil c [], fun d hd => List.mem_singleton.mp hd ▸ hc⟩

/-! ## The text -/

def textBefore : List Char := collect (template.take 6) ++ "    \"database.user\": ".toList

def textPassword : List Char := ",\n    \"database.password\": ".toList

def textName : List Char := ",\n    \"database.dbname\": ".toList

def textAfter : List Char := ",\n".toList ++ collect (template.drop 9)

/-- The template's text with these three in the quotation marks. -/
def filled (user pass db : List Char) : List Char :=
  textBefore ++ '"' :: (user ++ '"' :: (textPassword ++ '"' :: (pass ++ '"' ::
    (textName ++ '"' :: (db ++ '"' :: textAfter)))))

theorem collect_nil : collect [] = [] := rfl

theorem collect_cons (line : String) (lines : List String) :
    collect (line :: lines) = line.toList ++ '\n' :: collect lines := by
  simp only [collect, ← List.flatMap_eq_foldl, List.flatMap_cons, List.append_assoc,
    List.singleton_append]

-- The texts are evaluated on the characters of their literals: to go through the bytes of a string
-- takes the kernel seconds.

theorem collect_template : collect template = filled dbUser dbPassword dbName := by
  unfold filled textBefore textPassword textName textAfter template dbUser dbPassword dbName
  simp only [collect_cons, collect_nil, List.take_succ_cons, List.take_zero, List.drop_succ_cons,
    List.drop_zero]
  repeat rw [String.toList_ofList]
  decide +kernel

/-- Outside the three values there is no placeholder. -/
theorem not_infix_text : ∀ ph ∈ placeholders,
    ∀ t ∈ [textBefore, textPassword, textName, textAfter], ¬ ph <:+: t := by
  unfold placeholders textBefore textPassword textName textAfter template dbUser dbPassword dbName
  simp only [collect_cons, collect_nil, List.take_succ_cons, List.take_zero, List.drop_succ_cons,
    List.drop_zero]
  repeat rw [String.toList_ofList]
  decide +kernel

/-- No placeholder reaches over a quotation mark: each value is changed by itself. -/
theorem splice_filled {ph : List Char} (hph : ph ∈ placeholders) (val user pass db : List Char) :
    splice ph val (filled user pass db) =
      filled (splice ph val user) (splice ph val pass) (splice ph val db) := by
  obtain ⟨hne, hletters, -⟩ := isPlain ph hph
  have hquote : '"' ∉ ph := hletters '"' (by decide)
  have htext (t : List Char) (ht : t ∈ [textBefore, textPassword, textName, textAfter]) :
      splice ph val t = t := splice_of_absent (not_infix_text ph hph t ht)
  rw [filled, filled, splice_append_cons hne hquote, splice_append_cons hne hquote,
    splice_append_cons hne hquote, splice_append_cons hne hquote, splice_append_cons hne hquote,
    splice_append_cons hne hquote, htext textBefore (by simp), htext textPassword (by simp),
    htext textName (by simp), htext textAfter (by simp)]

/-- One `replace` of the program on the template as it is by then. -/
theorem replace_filled {ph : List Char} (hph : ph ∈ placeholders) (val user pass db : List Char) :
    replace (filled user pass db) ph val =
      filled (splice ph val user) (splice ph val pass) (splice ph val db) := by
  rw [replace_eq (isPlain ph hph).1, splice_filled hph]

/-- What the program prints: the values, changed by the replacement of the later placeholders, and
escaped. -/
theorem awk_template (vars : Variables) (ENVIRON : String → List Char) :
    awk vars ENVIRON template =
      filled
        (jsonescape (splice dbName (ENVIRON vars.db)
          (splice dbPassword (ENVIRON vars.pass) (ENVIRON vars.user))))
        (jsonescape (splice dbName (ENVIRON vars.db) (ENVIRON vars.pass)))
        (jsonescape (ENVIRON vars.db)) := by
  have hafterUser (val : List Char) :
      splice dbUser val dbPassword = dbPassword ∧ splice dbUser val dbName = dbName :=
    ⟨splice_of_absent (by decide +kernel), splice_of_absent (by decide +kernel)⟩
  have hafterPass (val : List Char) : splice dbPassword val dbName = dbName :=
    splice_of_absent (by decide +kernel)
  simp only [awk]
  -- the user name is written in the template itself
  rw [collect_template, replace_filled dbUser_mem, splice_placeholder (isPlain dbUser dbUser_mem).1,
    (hafterUser _).1, (hafterUser _).2]
  -- the password in what that has become, and the name of the database in what comes of both
  rw [replace_filled dbPassword_mem, splice_placeholder (isPlain dbPassword dbPassword_mem).1,
    hafterPass, replace_filled dbName_mem, splice_placeholder (isPlain dbName dbName_mem).1]
  rw [splice_jsonescape dbPassword_mem, splice_jsonescape dbName_mem, splice_jsonescape dbName_mem]

/-! ## Reading the text -/

/-- The tokens of a field that is not a credential. -/
def ownTokens (field : String × String) : List Token :=
  [.str field.1.toList, .nameSeparator, .str field.2.toList]

/-- The tokens before the name of the user. -/
def tokensBefore : List Token :=
  .beginObject :: ownTokens ("name", "booking-system-connector") ++
    [.valueSeparator, .str "config".toList, .nameSeparator, .beginObject] ++
    fieldsBefore.flatMap (fun field => ownTokens field ++ [.valueSeparator]) ++
    [.str "database.user".toList, .nameSeparator]

/-- Those after the name of the database. -/
def tokensAfter : List Token :=
  fieldsAfter.flatMap (fun field => .valueSeparator :: ownTokens field) ++ [.endObject, .endObject]

theorem scan_textBefore : scan .between textBefore = some (tokensBefore, .between) := by
  unfold textBefore template tokensBefore fieldsBefore
  simp only [collect_cons, collect_nil, List.take_succ_cons, List.take_zero, List.flatMap_cons,
    List.flatMap_nil, ownTokens]
  repeat rw [String.toList_ofList]
  decide +kernel

theorem scan_textPassword : scan .between textPassword =
    some ([.valueSeparator, .str "database.password".toList, .nameSeparator], .between) := by
  unfold textPassword
  rw [String.toList_ofList, String.toList_ofList]
  decide +kernel

theorem scan_textName : scan .between textName =
    some ([.valueSeparator, .str "database.dbname".toList, .nameSeparator], .between) := by
  unfold textName
  rw [String.toList_ofList, String.toList_ofList]
  decide +kernel

theorem scan_textAfter : scan .between textAfter = some (tokensAfter, .between) := by
  unfold textAfter template tokensAfter fieldsAfter
  simp only [collect_cons, collect_nil, List.drop_succ_cons, List.drop_zero, List.flatMap_cons,
    List.flatMap_nil, ownTokens]
  repeat rw [String.toList_ofList]
  decide +kernel

theorem value?_tokens (user pass db : List Char) :
    value? (tokensBefore ++ .str user ::
      ([.valueSeparator, .str "database.password".toList, .nameSeparator] ++ .str pass ::
        ([.valueSeparator, .str "database.dbname".toList, .nameSeparator] ++ .str db ::
          tokensAfter))) = some (document user pass db) := rfl

section Parse

variable {user pass db : List Char}

theorem stands_or_refused (c : Char) :
    Stands (jsonescapeChar c) c ∨ Refused (jsonescapeChar c) := by
  by_cases h : Forbidden c
  · exact .inr (refused_jsonescapeChar h)
  · exact .inl (stands_jsonescapeChar h)

theorem scan_value (h : Clean user) (text : List Char) :
    scan .between ('"' :: (jsonescape user ++ '"' :: text)) =
      (scan .between text).map fun r => (.str user :: r.1, r.2) := by
  rw [jsonescape_eq]
  exact scan_quoted (fun c hc => stands_jsonescapeChar (h c hc)) text

theorem scan_value_of_not (h : ¬ Clean user) (text : List Char) :
    scan .between ('"' :: (jsonescape user ++ '"' :: text)) = none := by
  obtain ⟨c, hc, hforbidden⟩ : ∃ c ∈ user, Forbidden c := by simpa [Clean] using h
  rw [jsonescape_eq]
  exact scan_quoted_of_refused stands_or_refused ⟨c, hc, refused_jsonescapeChar hforbidden⟩ text

/-- The template with three values is the text of its document, if JSON allows their characters. -/
theorem parse_filled (huser : Clean user) (hpass : Clean pass) (hdb : Clean db) :
    parse (filled (jsonescape user) (jsonescape pass) (jsonescape db)) =
      some (document user pass db) := by
  have hscan : scan .between (filled (jsonescape user) (jsonescape pass) (jsonescape db)) =
      some (tokensBefore ++ .str user ::
        ([.valueSeparator, .str "database.password".toList, .nameSeparator] ++ .str pass ::
          ([.valueSeparator, .str "database.dbname".toList, .nameSeparator] ++ .str db ::
            tokensAfter)), .between) := by
    rw [filled, scan_append, scan_textBefore, Option.bind_some, scan_value huser, scan_append,
      scan_textPassword, Option.bind_some, scan_value hpass, scan_append, scan_textName,
      Option.bind_some, scan_value hdb, scan_textAfter]
    rfl
  rw [parse, tokens, hscan, Option.bind_some, Option.bind_some, value?_tokens]

/-- Otherwise it is not a JSON text. -/
theorem parse_filled_of_not (h : ¬ (Clean user ∧ Clean pass ∧ Clean db)) :
    parse (filled (jsonescape user) (jsonescape pass) (jsonescape db)) = none := by
  have hscan : scan .between (filled (jsonescape user) (jsonescape pass) (jsonescape db)) =
      none := by
    -- the first value that is not clean is where the scan ends
    rw [filled, scan_append, scan_textBefore, Option.bind_some]
    by_cases huser : Clean user
    · rw [scan_value huser, scan_append, scan_textPassword, Option.bind_some]
      by_cases hpass : Clean pass
      · rw [scan_value hpass, scan_append, scan_textName, Option.bind_some,
          scan_value_of_not fun hdb => h ⟨huser, hpass, hdb⟩]
        rfl
      · rw [scan_value_of_not hpass]
        rfl
    · rw [scan_value_of_not huser]
      rfl
  rw [parse, tokens, hscan, Option.bind_none, Option.bind_none]

end Parse

/-- The template on its own is the text of the document with the placeholders for credentials. -/
theorem parse_template : parse (collect template) = some (document dbUser dbPassword dbName) := by
  have hself (ph : List Char) (hph : ph ∈ placeholders) : jsonescape ph = ph := by
    rw [jsonescape_eq]
    exact flatMap_eq_self (isPlain ph hph).2.2
  have hclean : ∀ ph ∈ placeholders, Clean ph := by
    unfold placeholders dbUser dbPassword dbName
    rw [String.toList_ofList, String.toList_ofList, String.toList_ofList]
    decide +kernel
  have h := parse_filled (hclean dbUser dbUser_mem)
    (hclean dbPassword dbPassword_mem) (hclean dbName dbName_mem)
  rwa [hself dbUser dbUser_mem, hself dbPassword dbPassword_mem,
    hself dbName dbName_mem, ← collect_template] at h

/-! ## When the credentials survive -/

theorem document_inj {user pass db user' pass' db' : List Char}
    (h : document user pass db = document user' pass' db') :
    user = user' ∧ pass = pass' ∧ db = db' := by
  simpa [document, own, fieldsBefore] using h

/-- The credentials survive if JSON allows their characters, and if the replacement of the later
placeholders leaves them as they are. -/
theorem roundTrips_filled_iff (user pass db : List Char) :
    RoundTrips
        (filled (jsonescape (splice dbName db (splice dbPassword pass user)))
          (jsonescape (splice dbName db pass)) (jsonescape db)) user pass db ↔
      (Clean user ∧ Clean pass ∧ Clean db) ∧
        splice dbName db (splice dbPassword pass user) = user ∧ splice dbName db pass = pass := by
  rw [RoundTrips]
  constructor
  · intro h
    by_cases hclean : Clean (splice dbName db (splice dbPassword pass user)) ∧
        Clean (splice dbName db pass) ∧ Clean db
    · -- a JSON text, and its document tells what has been written
      rw [parse_filled hclean.1 hclean.2.1 hclean.2.2, Option.some.injEq] at h
      obtain ⟨huser, hpass, -⟩ := document_inj h
      rw [huser, hpass] at hclean
      exact ⟨hclean, huser, hpass⟩
    · rw [parse_filled_of_not hclean] at h
      exact absurd h.symm (Option.some_ne_none _)
  · rintro ⟨⟨huser, hpass, hdb⟩, hfixed, hfixed'⟩
    rw [hfixed, hfixed', parse_filled huser hpass hdb]

/-- The user name comes back if neither placeholder changes it, or if the second replacement undoes
the first. -/
theorem splice_splice_eq_iff (user pass db : List Char) :
    splice dbName db (splice dbPassword pass user) = user ↔
      Untouched dbPassword pass user ∧ Untouched dbName db user ∨ PutBack user pass db := by
  have hpass : dbPassword ≠ [] := (isPlain dbPassword dbPassword_mem).1
  have hname : dbName ≠ [] := (isPlain dbName dbName_mem).1
  rw [Untouched, Untouched, ← splice_eq_self_iff hpass, ← splice_eq_self_iff hname]
  constructor
  · intro h
    by_cases hsame : splice dbPassword pass user = user
    · rw [hsame] at h
      exact .inl ⟨hsame, h⟩
    · -- the password has changed it, and the name of the database has changed it back
      exact .inr ⟨splice dbPassword pass user, hsame, rfl, h⟩
  · rintro (⟨hsame, h⟩ | ⟨s, -, rfl, h⟩)
    · rw [hsame, h]
    · exact h

/-- What the program prints is the document with the credentials of its environment if and only if
none of them holds a control character without a branch in `jsonescape`, and no later placeholder
changes the user name or the password. -/
theorem roundTrips_iff (vars : Variables) (ENVIRON : String → List Char) :
    RoundTrips (awk vars ENVIRON template) (ENVIRON vars.user) (ENVIRON vars.pass)
        (ENVIRON vars.db) ↔
      Clean (ENVIRON vars.user) ∧ Clean (ENVIRON vars.pass) ∧ Clean (ENVIRON vars.db) ∧
        Unmixed (ENVIRON vars.user) (ENVIRON vars.pass) (ENVIRON vars.db) := by
  have hpass : splice dbName (ENVIRON vars.db) (ENVIRON vars.pass) = ENVIRON vars.pass ↔
      Untouched dbName (ENVIRON vars.db) (ENVIRON vars.pass) :=
    splice_eq_self_iff (isPlain dbName dbName_mem).1
  rw [awk_template, roundTrips_filled_iff, splice_splice_eq_iff, hpass, Unmixed, and_assoc,
    and_assoc, and_comm (b := Untouched dbName (ENVIRON vars.db) (ENVIRON vars.pass))]

/-- An environment of the container that registers the connector. -/
def environment (user pass db : String) (name : String) : List Char :=
  if name = compose.user then user.toList
  else if name = compose.pass then pass.toList
  else if name = compose.db then db.toList
  else []

theorem environment_compose (user pass db : String) :
    environment user pass db compose.user = user.toList ∧
      environment user pass db compose.pass = pass.toList ∧
      environment user pass db compose.db = db.toList := by
  simp [environment, compose]

/-- With the control character U+0001 in the password the text is no JSON, and a user with the name
`__DB_PASSWORD__` is registered under the password. -/
theorem not_roundTrips_control_and_placeholder :
    ¬ RoundTrips (awk compose (environment "booking_system" "\x01" "booking_system") template)
        "booking_system".toList "\x01".toList "booking_system".toList ∧
      ¬ RoundTrips (awk compose (environment "__DB_PASSWORD__" "secret" "booking_system") template)
        "__DB_PASSWORD__".toList "secret".toList "booking_system".toList := by
  constructor
  · obtain ⟨huser, hpass, hdb⟩ := environment_compose "booking_system" "\x01" "booking_system"
    rw [awk_template, huser, hpass, hdb, roundTrips_filled_iff]
    rintro ⟨⟨-, hclean, -⟩, -⟩
    exact absurd hclean (by decide +kernel)
  · obtain ⟨huser, hpass, hdb⟩ := environment_compose "__DB_PASSWORD__" "secret" "booking_system"
    have hsecret : splice dbPassword "secret".toList "__DB_PASSWORD__".toList = "secret".toList :=
      splice_placeholder (isPlain dbPassword dbPassword_mem).1
    rw [awk_template, huser, hpass, hdb, roundTrips_filled_iff, hsecret,
      splice_of_absent (by decide +kernel)]
    rintro ⟨-, hsame, -⟩
    exact absurd hsame (by decide +kernel)

end ScalableBooking.Connector
