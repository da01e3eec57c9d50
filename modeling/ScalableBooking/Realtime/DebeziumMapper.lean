import ScalableBooking.Lib.Javascript

/-!
# Messages of Debezium

`debezium-mapper.ts`: from the text of a message to the change it reports. The table of operations
is an object of the language, so a lookup also finds what such an object inherits.
-/

namespace ScalableBooking.Realtime

open Javascript

/-- `CdcEventType`, or what a lookup in `OP_TO_EVENT_TYPE` finds besides. -/
inductive CdcEventType where
  | insert
  | update
  | delete
  | inherited (name : String)
deriving DecidableEq, Repr

/-- `CdcEvent`. -/
structure CdcEvent (N : Type) where
  type : CdcEventType
  data : Json N
  timestamp : String

/-- `OP_TO_EVENT_TYPE[op]`. -/
def opToEventType (op : String) : Option CdcEventType :=
  match [("c", .insert), ("r", .insert), ("u", .update), ("d", .delete)].lookup op with
  | some type => some type
  | none => if op ∈ objectPrototype then some (.inherited op) else none

/-- `mapDebeziumMessage`. -/
def mapDebeziumMessage {N : Type} [Zero N] [DecidableEq N] (js : Builtins N) (rawValue : String) :
    Except Exception (Option (CdcEvent N)) := do
  let payload ← js.parse rawValue
  let op ← Json.textOf js (← payload.property "op")
  match opToEventType op with
  | none => return none
  | some type =>
    let image ← payload.property (if type = .delete then "before" else "after")
    match image.filter Json.truthy with
    | none => return none
    | some data =>
      let timestamp ← js.toISOString (← payload.property "ts_ms")
      return some { type, data, timestamp }

end ScalableBooking.Realtime
