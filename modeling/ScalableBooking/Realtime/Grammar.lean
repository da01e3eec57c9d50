import ScalableBooking.Realtime.CdcConsumer

/-!
# Which messages delete a key

A message that reports a change of a row of `seats` makes the consumer delete one key, that of the
event of the row. No other message should make it delete one, and `mapDebeziumMessage` should
return `null` for an `op` that Debezium does not know.

It does not always. `OP_TO_EVENT_TYPE` is read with whatever `op` is: an array of one text is
looked up as this text, a name such as `constructor` finds what every object inherits, and an
object may throw on its way to a text. Where none of that comes to a row, the messages that delete
a key are exactly those that report a change (`exact_iff`).
-/

namespace ScalableBooking.Realtime

open Javascript

variable {N : Type} [Zero N] [DecidableEq N] {js : Builtins N} {raw : Option String}

/-- The operations of Debezium. -/
def opCodes : List String := ["c", "r", "u", "d"]

/-- The member of a message in which the row is. -/
def imageMember (op : String) : String := if op = "d" then "before" else "after"

/-- The keys that a call asks Redis to delete. -/
def Handling.dels : Handling N → List String
  | .resolved => []
  | .del key _ => [key]

/-- The message reports a change of a row of the event. -/
def Reports (js : Builtins N) (raw : Option String) (eventId : EventId N) : Prop :=
  ∃ text members op row value timestamp, raw = some text ∧ js.parse text = .ok (.object members) ∧
    members.lookup "op" = some (.string op) ∧ op ∈ opCodes ∧
    members.lookup (imageMember op) = some (.object row) ∧
    row.lookup "event_id" = some value ∧ EventId.ofJson value = some eventId ∧
    js.toISOString (members.lookup "ts_ms") = .ok timestamp

/-- The message can be parsed, and its `op` is none of Debezium's. -/
def OtherOp (js : Builtins N) (text : String) (payload : Json N) (op : Option (Json N)) : Prop :=
  js.parse text = .ok payload ∧ payload.property "op" = .ok op ∧
    ∀ code ∈ opCodes, op ≠ some (.string code)

/-- What the consumer should do with a message. -/
structure Exact (js : Builtins N) (raw : Option String) : Prop where
  /-- The call resolves, however its `DEL` ends. -/
  resolves : ∀ {S : Type} [DecidableEq S] (eventIdParam : String → Option N) (s : State N S)
    (ended : Bool), s.call = none → ∃ s' ack, s.run js eventIdParam
      (.message raw :: (handleCdcMessage js raw).dels.map fun _ => .del ended) = some s' ∧
      s'.call = none ∧ s'.acks = s.acks ++ [ack] ∧ ack.raw = raw
  deletes_iff : (handleCdcMessage js raw).dels ≠ [] ↔ ∃ eventId, Reports js raw eventId
  key : ∀ eventId, Reports js raw eventId →
    (handleCdcMessage js raw).dels = [seatAvailabilityCacheKey js eventId]
  other : ∀ text payload op, raw = some text → OtherOp js text payload op →
    mapDebeziumMessage js text = .ok none

/-- Something is found under such an `op` all the same: it throws on its way to a text, or the
table has its text, and there is a row. -/
def Misread (js : Builtins N) (payload : Json N) (op : Option (Json N)) : Prop :=
  (∃ e, Json.textOf js op = .error e) ∨
    ∃ name image, Json.textOf js op = .ok name ∧ name ∈ opCodes ++ objectPrototype ∧
      payload.property (imageMember name) = .ok (some image) ∧ image.truthy = true

/-! ### The table -/

theorem opToEventType_of_mem {name : String} (h : name ∈ opCodes) :
    ∃ type, opToEventType name = some type ∧ (type = .delete ↔ name = "d") := by
  simp only [opCodes, List.mem_cons, List.not_mem_nil, or_false] at h
  obtain rfl | rfl | rfl | rfl := h
  · exact ⟨.insert, rfl, by decide⟩
  · exact ⟨.insert, rfl, by decide⟩
  · exact ⟨.update, rfl, by decide⟩
  · exact ⟨.delete, rfl, by decide⟩

/-- Beside its own, the table has what every object inherits. -/
theorem opToEventType_of_not_mem {name : String} (h : name ∉ opCodes) :
    opToEventType name = if name ∈ objectPrototype then some (.inherited name) else none := by
  simp only [opCodes, List.mem_cons, List.not_mem_nil, or_false, not_or] at h
  obtain ⟨hc, hr, hu, hd⟩ := h
  simp [opToEventType, List.lookup_cons, beq_false_of_ne hc, beq_false_of_ne hr, beq_false_of_ne hu,
    beq_false_of_ne hd]

theorem opToEventType_eq_none {name : String} :
    opToEventType name = none ↔ name ∉ opCodes ++ objectPrototype := by
  by_cases h : name ∈ opCodes
  · obtain ⟨type, htype, -⟩ := opToEventType_of_mem h
    simp [htype, h]
  · simp [opToEventType_of_not_mem h, h]

theorem imageMember_eq {name : String} {type : CdcEventType} (h : opToEventType name = some type) :
    (if type = .delete then "before" else "after") = imageMember name := by
  rw [imageMember]
  by_cases hname : name ∈ opCodes
  · obtain ⟨type', htype, hdelete⟩ := opToEventType_of_mem hname
    cases h.symm.trans htype
    simp [hdelete]
  · rw [opToEventType_of_not_mem hname] at h
    split at h
    · cases h
      have hd : name ≠ "d" := by
        rintro rfl
        exact hname (by decide)
      simp [hd]
    · cases h

/-! ### The mapper -/

omit [Zero N] [DecidableEq N] in
/-- No property of a value throws if one does not. -/
theorem property_ok {payload : Json N} {name : String} {value : Option (Json N)}
    (h : payload.property name = .ok value) (name' : String) :
    ∃ value', payload.property name' = .ok value' := by
  cases payload with
  | null => cases h
  | object members => exact ⟨_, rfl⟩
  | _ => exact ⟨none, rfl⟩

/-- A message whose `op` has a text is read through the table. -/
theorem mapDebeziumMessage_eq {text name : String} {payload : Json N}
    {op image ts : Option (Json N)} (hparse : js.parse text = .ok payload)
    (hop : payload.property "op" = .ok op) (hname : Json.textOf js op = .ok name)
    (himage : payload.property (imageMember name) = .ok image)
    (hts : payload.property "ts_ms" = .ok ts) :
    mapDebeziumMessage js text = match opToEventType name, image.filter Json.truthy with
      | some type, some data => (js.toISOString ts).map fun timestamp =>
          some { type, data, timestamp }
      | _, _ => .ok none := by
  simp only [mapDebeziumMessage, hparse, hop, hname, bind, Except.bind]
  cases htype : opToEventType name with
  | none => rfl
  | some type =>
    simp only [imageMember_eq htype, himage]
    cases image.filter Json.truthy with
    | none => rfl
    | some data =>
      simp only [hts]
      cases js.toISOString ts <;> rfl

/-- A message that is mapped to a change has been parsed, and read through the table. -/
theorem of_mapDebeziumMessage {text : String} {event : CdcEvent N}
    (h : mapDebeziumMessage js text = .ok (some event)) :
    ∃ payload op name ts, js.parse text = .ok payload ∧ payload.property "op" = .ok op ∧
      Json.textOf js op = .ok name ∧ opToEventType name = some event.type ∧
      payload.property (imageMember name) = .ok (some event.data) ∧ event.data.truthy = true ∧
      payload.property "ts_ms" = .ok ts ∧ js.toISOString ts = .ok event.timestamp := by
  have h' := h
  simp only [mapDebeziumMessage, bind, bind_eq_ok] at h'
  obtain ⟨payload, hparse, op, hop, name, hname, -⟩ := h'
  -- a payload that lets one member be read lets all be read
  obtain ⟨image, himage⟩ := property_ok hop (imageMember name)
  obtain ⟨ts, hts⟩ := property_ok hop "ts_ms"
  rw [mapDebeziumMessage_eq hparse hop hname himage hts] at h
  split at h
  · rename_i type data htype hdata
    obtain ⟨timestamp, hiso, hevent⟩ : ∃ timestamp, js.toISOString ts = .ok timestamp ∧
        some { type, data, timestamp } = some event := by
      cases hiso : js.toISOString ts with
      | error e =>
        rw [hiso] at h
        cases h
      | ok timestamp =>
        rw [hiso] at h
        exact ⟨timestamp, rfl, Except.ok.inj h⟩
    cases hevent
    obtain ⟨rfl, htruthy⟩ := Option.filter_eq_some_iff.mp hdata
    exact ⟨payload, op, name, ts, hparse, hop, hname, htype, himage, htruthy, hts, hiso⟩
  · cases h

/-- A foreign `op` gives `null`, unless it is misread. -/
theorem mapDebeziumMessage_other {text : String} {payload : Json N} {op : Option (Json N)}
    (h : OtherOp js text payload op) :
    mapDebeziumMessage js text = .ok none ↔ ¬Misread js payload op := by
  obtain ⟨hparse, hop, -⟩ := h
  rw [Misread]
  cases hname : Json.textOf js op with
  | error e =>
    have herror : mapDebeziumMessage js text = .error e := by
      simp [mapDebeziumMessage, hparse, hop, hname, bind, Except.bind]
    simp [herror]
  | ok name =>
    obtain ⟨image, himage⟩ := property_ok hop (imageMember name)
    obtain ⟨ts, hts⟩ := property_ok hop "ts_ms"
    rw [mapDebeziumMessage_eq hparse hop hname himage hts]
    cases htype : opToEventType name with
    | none =>
      have hmem : name ∉ opCodes ++ objectPrototype := opToEventType_eq_none.mp htype
      refine iff_of_true rfl ?_
      rintro (⟨e, he⟩ | ⟨name', _, hname', hmem', -⟩)
      · cases he
      · cases hname'
        exact hmem hmem'
    | some type =>
      -- the table of operations has its own names and those of every object
      have hmem : name ∈ opCodes ++ objectPrototype := by
        by_contra hmem
        rw [opToEventType_eq_none.mpr hmem] at htype
        cases htype
      cases hdata : image.filter Json.truthy with
      | none =>
        refine iff_of_true rfl ?_
        rintro (⟨e, he⟩ | ⟨name', value, hname', -, himage', htruthy⟩)
        · cases he
        · cases hname'
          cases himage.symm.trans himage'
          rw [Option.filter_some_pos htruthy] at hdata
          cases hdata
      | some data =>
        obtain ⟨rfl, htruthy⟩ := Option.filter_eq_some_iff.mp hdata
        refine iff_of_false ?_ (not_not.mpr (.inr ⟨name, data, rfl, hmem, himage, htruthy⟩))
        cases js.toISOString ts <;> simp [Except.map]

/-! ### The call -/

/-- A call that deletes a key has a change and the id of an event, and what it broadcasts is read
from the row. -/
theorem of_handleCdcMessage {key : String} {update : Option (SeatUpdateMessage N)}
    (h : handleCdcMessage js raw = .del key update) :
    ∃ text event value eventId, raw = some text ∧ mapDebeziumMessage js text = .ok (some event) ∧
      event.data.property "event_id" = .ok (some value) ∧ EventId.ofJson value = some eventId ∧
      (update = none ∨ event.type ≠ .delete ∧ ∃ seatId status,
        event.data.property "status" = .ok status ∧
        update = seatUpdate js eventId seatId status) := by
  cases raw with
  | none => cases h
  | some text =>
    simp only [handleCdcMessage] at h
    split at h
    · cases h
    · split at h
      · cases h
      · rename_i handling hhandling
        subst h
        simp only [handleEvent, bind, bind_eq_ok] at hhandling
        obtain ⟨event, hmap, hevent⟩ := hhandling
        cases event with
        | none => cases hevent
        | some event =>
          obtain ⟨value, hvalue, hdel⟩ := bind_eq_ok.mp hevent
          cases hid : value.bind EventId.ofJson with
          | none =>
            rw [hid] at hdel
            cases hdel
          | some eventId =>
            obtain ⟨value', rfl, hid'⟩ := Option.bind_eq_some_iff.mp hid
            refine ⟨text, event, value', eventId, rfl, hmap, hvalue, hid', ?_⟩
            simp only [hid] at hdel
            split at hdel
            · cases hdel
              exact .inl rfl
            · -- not a deletion, so the seat and its status are read as well
              rename_i hdelete
              obtain ⟨seatId, -, hdel⟩ := bind_eq_ok.mp hdel
              obtain ⟨status, hstatus, hdel⟩ := bind_eq_ok.mp hdel
              cases hdel
              exact .inr ⟨hdelete, seatId, status, hstatus, rfl⟩

/-- A call for a change of a row deletes the key of its event. -/
theorem Reports.dels {eventId : EventId N} (h : Reports js raw eventId) :
    (handleCdcMessage js raw).dels = [seatAvailabilityCacheKey js eventId] := by
  obtain ⟨text, members, op, row, value, timestamp, rfl, hparse, hop, hmem, himage, hvalue, hid,
    hiso⟩ := h
  have hne : text ≠ "" := by
    rintro rfl
    rw [js.parse_empty] at hparse
    cases hparse
  obtain ⟨type, htype, -⟩ := opToEventType_of_mem hmem
  have hmap : mapDebeziumMessage js text = .ok (some ⟨type, .object row, timestamp⟩) := by
    rw [mapDebeziumMessage_eq hparse (congrArg Except.ok hop) rfl (congrArg Except.ok himage) rfl,
      htype, Option.filter_some_pos rfl, hiso]
    rfl
  have hevent : ∃ update,
      handleEvent js text = .ok (.del (seatAvailabilityCacheKey js eventId) update) := by
    -- the cache key does not depend on whether an update is sent
    by_cases hdelete : type = .delete
    · exact ⟨none, by simp [handleEvent, hmap, Json.property, hvalue, hid, hdelete, bind,
        Except.bind, pure, Except.pure]⟩
    · exact ⟨_, by simp [handleEvent, hmap, Json.property, hvalue, hid, hdelete, bind,
        Except.bind, pure, Except.pure]; rfl⟩
  obtain ⟨update, hevent⟩ := hevent
  simp [handleCdcMessage, hne, hevent, Handling.dels]

/-- The call for any message comes to its end. -/
theorem resolves {S : Type} [DecidableEq S] (js : Builtins N) (raw : Option String)
    (eventIdParam : String → Option N) (s : State N S) (ended : Bool) (hs : s.call = none) :
    ∃ s' ack, s.run js eventIdParam
      (.message raw :: (handleCdcMessage js raw).dels.map fun _ => .del ended) = some s' ∧
      s'.call = none ∧ s'.acks = s.acks ++ [ack] ∧ ack.raw = raw := by
  cases hhandling : handleCdcMessage js raw with
  | resolved =>
    have hmessage : s.step js eventIdParam (.message raw) = some (s.resolve raw []) := by
      simp only [State.step, hs, hhandling]
    exact ⟨s.resolve raw [], _, by simp [State.run, hmessage, Handling.dels], rfl, rfl, rfl⟩
  | del key update =>
    let call : Call N := ⟨raw, key, update⟩
    let s₁ : State N S := { s with call := some call }
    have hmessage : s.step js eventIdParam (.message raw) = some s₁ := by
      simp only [State.step, hs, hhandling, s₁, call]
    obtain ⟨effects, hdel⟩ : ∃ effects, s₁.step js eventIdParam (.del ended) =
        some (s₁.resolve raw effects) := ⟨_, rfl⟩
    exact ⟨s₁.resolve raw effects, ⟨raw, effects, s.rooms, s.readyState⟩,
      by simp [State.run, hmessage, hdel, Handling.dels], rfl, rfl, rfl⟩

/-- A change that is not misread is one that Debezium reports. -/
theorem reports_of_mapDebeziumMessage {text : String} {event : CdcEvent N} {value : Json N}
    {eventId : EventId N}
    (hread : ∀ payload op, OtherOp js text payload op → ¬Misread js payload op)
    (hmap : mapDebeziumMessage js text = .ok (some event))
    (hvalue : event.data.property "event_id" = .ok (some value))
    (hid : EventId.ofJson value = some eventId) : Reports js (some text) eventId := by
  obtain ⟨payload, op, name, ts, hparse, hop, hname, -, himage, -, hts, hiso⟩ :=
    of_mapDebeziumMessage hmap
  obtain ⟨code, hcode, rfl⟩ : ∃ code ∈ opCodes, op = some (.string code) := by
    -- another operation that is read as one would be misread
    by_contra hother
    push Not at hother
    have hnull := (mapDebeziumMessage_other ⟨hparse, hop, hother⟩).mpr
      (hread payload op ⟨hparse, hop, hother⟩)
    rw [hmap] at hnull
    cases hnull
  obtain rfl : name = code := (Except.ok.inj hname).symm
  cases payload with
  | object members =>
    cases hdata : event.data with
    | object row =>
      rw [hdata] at himage hvalue
      cases hts
      exact ⟨text, members, name, row, value, event.timestamp, rfl, hparse, Except.ok.inj hop,
        hcode, Except.ok.inj himage, Except.ok.inj hvalue, hid, hiso⟩
    | _ =>
      rw [hdata] at hvalue
      cases hvalue
  | _ => cases hop

/-- A message is treated exactly as it should be if and only if no foreign `op` of it is misread. -/
theorem exact_iff (js : Builtins N) (raw : Option String) :
    Exact js raw ↔
      ∀ text payload op, raw = some text → OtherOp js text payload op →
        ¬Misread js payload op := by
  refine ⟨?_, ?_⟩
  · intro h text payload op hraw hother
    exact (mapDebeziumMessage_other hother).mp (h.other text payload op hraw hother)
  · intro h
    refine ⟨fun eventIdParam s ended hs => resolves js raw eventIdParam s ended hs, ⟨?_, ?_⟩,
      fun eventId hreports => hreports.dels, ?_⟩
    · -- what deletes a key has been mapped to an event, and is a report if it is not misread
      intro hdels
      cases hhandling : handleCdcMessage js raw with
      | resolved =>
        rw [hhandling] at hdels
        exact absurd rfl hdels
      | del key update =>
        obtain ⟨text, event, value, eventId, rfl, hmap, hvalue, hid, -⟩ :=
          of_handleCdcMessage hhandling
        exact ⟨eventId, reports_of_mapDebeziumMessage (fun payload op => h text payload op rfl) hmap
          hvalue hid⟩
    · rintro ⟨eventId, hreports⟩
      rw [hreports.dels]
      exact List.cons_ne_nil _ _
    · intro text payload op hraw hother
      exact (mapDebeziumMessage_other hother).mpr (h text payload op hraw hother)

/-! ### An inherited name -/

/-- The `op` of this message is `constructor`. -/
def inheritedText : String :=
  "\x7b\"after\":\x7b\"event_id\":7\x7d,\"op\":\"constructor\",\"ts_ms\":0\x7d"

def inheritedPayload : Json ℕ :=
  .object [("after", .object [("event_id", .number 7)]), ("op", .string "constructor"),
    ("ts_ms", .number 0)]

/-- The language, as far as it reads this message. -/
def inheriting : Builtins ℕ where
  parse text := if text = inheritedText then .ok inheritedPayload else .error .syntaxError
  numberToString := natural.numberToString
  toNumber := natural.toNumber
  isFinite := natural.isFinite
  toISOString := natural.toISOString
  parse_empty := if_neg (by decide)

/-- It deletes the key of event 7, and is not mapped to `null`. -/
theorem inherited_deletes :
    (handleCdcMessage inheriting (some inheritedText)).dels = ["seats:availability:event:7"] ∧
      ¬Exact inheriting (some inheritedText) := by
  have hparse : inheriting.parse inheritedText = .ok inheritedPayload := by simp [inheriting]
  have hother : OtherOp inheriting inheritedText inheritedPayload (some (.string "constructor")) :=
    ⟨hparse, rfl, by simp [opCodes]⟩
  refine ⟨?_, ?_⟩
  · have hmap : mapDebeziumMessage inheriting inheritedText = .ok (some
        ⟨.inherited "constructor", .object [("event_id", .number 7)],
          "1970-01-01T00:00:00.000Z"⟩) :=
      mapDebeziumMessage_eq hparse rfl rfl rfl rfl
    have hevent : handleEvent inheriting inheritedText =
        .ok (.del "seats:availability:event:7" none) := by
      simp only [handleEvent, hmap]
      rfl
    have hne : inheritedText ≠ "" := by decide
    simp [handleCdcMessage, hne, hevent, Handling.dels]
  · intro h
    exact (mapDebeziumMessage_other hother).mp (h.other _ _ _ rfl hother)
      (.inr ⟨"constructor", _, rfl, by decide, rfl, rfl⟩)

end ScalableBooking.Realtime
