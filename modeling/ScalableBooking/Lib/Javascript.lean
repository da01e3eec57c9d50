import Mathlib.Algebra.Notation.Defs

/-!
# Values that JSON carries into JavaScript

What `JSON.parse` returns, over an arbitrary type of numbers, and what the language does when a
program reads a property of such a value, tests it, or takes it for the name of a property.
-/

namespace ScalableBooking.Javascript

/-- What can be thrown. -/
inductive Exception where
  | syntaxError
  | typeError
  | rangeError
deriving DecidableEq, Repr

/-- Two steps return if both do. -/
theorem bind_eq_ok {ε α β : Type*} {x : Except ε α} {f : α → Except ε β} {b : β} :
    Except.bind x f = .ok b ↔ ∃ a, x = .ok a ∧ f a = .ok b := by
  cases x with
  | error e => simp [Except.bind]
  | ok a => simp [Except.bind]

/-- A value that `JSON.parse` returns. -/
inductive Json (N : Type) where
  | null
  | bool (b : Bool)
  | number (n : N)
  | string (s : String)
  | array (items : List (Json N))
  | object (members : List (String × Json N))

/-- The built-ins that read text or write it. -/
structure Builtins (N : Type) where
  /-- `JSON.parse` -/
  parse : String → Except Exception (Json N)
  /-- `String(n)` -/
  numberToString : N → String
  /-- `Number(s)` -/
  toNumber : String → N
  /-- `Number.isFinite` -/
  isFinite : N → Bool
  /-- `new Date(value).toISOString()`, of `undefined` if there is no value -/
  toISOString : Option (Json N) → Except Exception String
  parse_empty : parse "" = .error .syntaxError

namespace Json

variable {N : Type}

/-- `value[name]`, for a name that no prototype has. -/
def property (name : String) : Json N → Except Exception (Option (Json N))
  | null => .error .typeError
  | object members => .ok (members.lookup name)
  | _ => .ok none

/-- `!!value`. -/
def truthy [Zero N] [DecidableEq N] : Json N → Bool
  | null => false
  | bool b => b
  | number n => n ≠ 0
  | string s => s ≠ ""
  | array _ | object _ => true

mutual

/-- The text of a value. An object of JSON has no method of its own, so its text is that of
`Object.prototype.toString`, unless a member hides it. -/
def toText (js : Builtins N) : Json N → Except Exception String
  | null => .ok "null"
  | bool b => .ok (if b then "true" else "false")
  | number n => .ok (js.numberToString n)
  | string s => .ok s
  | array items => (itemTexts js items).map (String.intercalate ",")
  | object members =>
      if (members.lookup "toString").isSome then .error .typeError else .ok "[object Object]"

/-- The texts of the items of an array, where `null` has none. -/
def itemTexts (js : Builtins N) : List (Json N) → Except Exception (List String)
  | [] => .ok []
  | null :: items => (itemTexts js items).map ("" :: ·)
  | item :: items => do return (← toText js item) :: (← itemTexts js items)

end

/-- The text of a property that may be `undefined`. -/
def textOf (js : Builtins N) : Option (Json N) → Except Exception String
  | none => .ok "undefined"
  | some value => value.toText js

end Json

/-- What every object inherits. -/
def objectPrototype : List String :=
  ["__defineGetter__", "__defineSetter__", "__lookupGetter__", "__lookupSetter__", "__proto__",
    "constructor", "hasOwnProperty", "isPrototypeOf", "propertyIsEnumerable", "toLocaleString",
    "toString", "valueOf"]

end ScalableBooking.Javascript
