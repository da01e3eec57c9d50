import Mathlib.Algebra.GroupWithZero.Nat
import ScalableBooking.Realtime.Broadcaster
import ScalableBooking.Realtime.DebeziumMapper

/-!
# The consumer of seat changes

`handleCdcMessage` waits once, for the `DEL` of the availability key, so a call has two parts:
what it does before (`handleCdcMessage`), and what it does when the `DEL` has ended
(`State.step`). Both are inside one `try`, whose `catch` only writes to the console. The consumer
gives it one message at a time, and moves past a message when the call has resolved. Meanwhile
sockets come and go.

The call for a seat change resolves in any case. It has deleted the key and sent the update if the
`DEL` has resolved, and otherwise neither (`propagated_iff_of_run`).
-/

namespace ScalableBooking.Realtime

open Booking (SeatStatus)
open Javascript

variable {N S : Type}

/-! ### One message -/

/-- An `event_id` that the consumer takes. -/
inductive EventId (N : Type) where
  | number (n : N)
  | string (s : String)
deriving DecidableEq, Repr

/-- `typeof eventId` is `number` or `string`. -/
def EventId.ofJson : Json N → Option (EventId N)
  | .number n => some (.number n)
  | .string s => some (.string s)
  | _ => none

/-- `seatAvailabilityCacheKey`. -/
def seatAvailabilityCacheKey (js : Builtins N) : EventId N → String
  | .number n => "seats:availability:event:" ++ js.numberToString n
  | .string s => "seats:availability:event:" ++ s

/-- `numericEventId`. -/
def EventId.toNumber (js : Builtins N) : EventId N → N
  | .number n => n
  | .string s => js.toNumber s

/-- The text of a status of a seat. -/
def statusText : SeatStatus → String
  | .available => "available"
  | .held => "held"
  | .booked => "booked"

/-- The status that a text names. -/
def statusOfText (text : String) : Option SeatStatus :=
  [SeatStatus.available, .held, .booked].find? fun status => statusText status = text

/-- The update that is broadcast for a row, if its fields are as they should be. -/
def seatUpdate (js : Builtins N) (eventId : EventId N) :
    Option (Json N) → Option (Json N) → Option (SeatUpdateMessage N)
  | some (.number seatId), some (.string status) =>
      if js.isFinite (eventId.toNumber js) then
        (statusOfText status).map fun status => ⟨seatId, eventId.toNumber js, status⟩
      else none
  | _, _ => none

/-- Where a call comes to without waiting: to its end, or to the `DEL` of a key, with the update
that it broadcasts afterwards. -/
inductive Handling (N : Type) where
  | resolved
  | del (key : String) (update : Option (SeatUpdateMessage N))

variable [Zero N] [DecidableEq N]

/-- What is inside the `try`, up to the `DEL`. -/
def handleEvent (js : Builtins N) (rawValue : String) : Except Exception (Handling N) := do
  match ← mapDebeziumMessage js rawValue with
  | none => return .resolved
  | some event =>
    match (← event.data.property "event_id").bind EventId.ofJson with
    | none => return .resolved
    | some eventId =>
      let key := seatAvailabilityCacheKey js eventId
      if event.type = .delete then return .del key none
      let seatId ← event.data.property "id"
      let status ← event.data.property "status"
      return .del key (seatUpdate js eventId seatId status)

/-- `handleCdcMessage`. -/
def handleCdcMessage (js : Builtins N) : Option String → Handling N
  | none => .resolved
  | some rawValue =>
      if rawValue = "" then .resolved
      else
        match handleEvent js rawValue with
        | .error _ => .resolved
        | .ok handling => handling

/-! ### The process -/

/-- What a call has done outside. -/
inductive Effect (N S : Type) where
  | deleted (key : String)
  | sent (socket : S) (msg : SeatUpdateMessage N)
deriving DecidableEq, Repr

/-- A call that has resolved, with what it has done, and with the rooms and sockets at that
moment. -/
structure Ack (N S : Type) where
  raw : Option String
  effects : List (Effect N S)
  rooms : Rooms N S
  readyState : S → ReadyState

/-- A call that waits for its `DEL`. -/
structure Call (N : Type) where
  raw : Option String
  key : String
  update : Option (SeatUpdateMessage N)

/-- The process. `watched` is the event that the `close` callback of a socket has in scope. -/
structure State (N S : Type) where
  rooms : Rooms N S
  readyState : S → ReadyState
  watched : S → Option N
  call : Option (Call N)
  acks : List (Ack N S)

/-- A client connects, with the parameter of its request; its socket is no longer open; its
`close` callback runs; a message comes; the `DEL` of the present call resolves or rejects. -/
inductive Event (S : Type) where
  | connect (socket : S) (param : String)
  | leave (socket : S)
  | close (socket : S)
  | message (raw : Option String)
  | del (resolved : Bool)

namespace State

variable [DecidableEq S]

/-- No client has connected and no message has come. -/
def start : State N S where
  rooms _ := none
  readyState _ := .connecting
  watched _ := none
  call := none
  acks := []

/-- The call for `raw` resolves. -/
def resolve (s : State N S) (raw : Option String) (effects : List (Effect N S)) : State N S :=
  { s with call := none, acks := s.acks ++ [⟨raw, effects, s.rooms, s.readyState⟩] }

/-- What a call does when its `DEL` has resolved. -/
def afterDel (s : State N S) (call : Call N) : List (Effect N S) :=
  .deleted call.key :: match call.update with
    | none => []
    | some msg => (s.rooms.broadcastSeatUpdate s.readyState msg).map fun socket => .sent socket msg

/-- One step, if the event can happen. `eventIdParam` is what the schema makes of the parameter of
a request. -/
def step (js : Builtins N) (eventIdParam : String → Option N) (s : State N S) :
    Event S → Option (State N S)
  | .connect socket param =>
      if s.readyState socket = .connecting then
        match eventIdParam param with
        | none => some { s with readyState := Function.update s.readyState socket .closing }
        | some eventId =>
            some { s with
              rooms := s.rooms.subscribe eventId socket
              readyState := Function.update s.readyState socket .opened
              watched := Function.update s.watched socket (some eventId) }
      else none
  | .leave socket =>
      if s.readyState socket = .opened then
        some { s with readyState := Function.update s.readyState socket .closing }
      else none
  | .close socket =>
      if s.readyState socket = .closing then
        some { s with
          rooms := (s.watched socket).elim s.rooms fun eventId => s.rooms.unsubscribe eventId socket
          readyState := Function.update s.readyState socket .closed }
      else none
  | .message raw =>
      match s.call with
      | some _ => none
      | none =>
          match handleCdcMessage js raw with
          | .resolved => some (s.resolve raw [])
          | .del key update => some { s with call := some ⟨raw, key, update⟩ }
  | .del resolved =>
      s.call.map fun call =>
        -- the `catch` takes a `DEL` that rejects
        s.resolve call.raw (if resolved then s.afterDel call else [])

/-- A run: its events one after another. -/
def run (js : Builtins N) (eventIdParam : String → Option N) (s : State N S) :
    List (Event S) → Option (State N S)
  | [] => some s
  | e :: es => (s.step js eventIdParam e).bind fun s' => s'.run js eventIdParam es

end State

/-! ### Seat changes -/

/-- The message reports an insert or an update of this seat: its operation is `c`, `r` or `u`, and
the row has a numeric id, a numeric event id and a valid status. -/
structure Carries (js : Builtins N) (raw : Option String) (msg : SeatUpdateMessage N) : Prop where
  finite : js.isFinite msg.eventId = true
  envelope : ∃ text payload op members, raw = some text ∧ js.parse text = .ok payload ∧
    payload.property "op" = .ok (some (.string op)) ∧ op ∈ ["c", "r", "u"] ∧
    payload.property "after" = .ok (some (.object members)) ∧
    (∃ ts timestamp, payload.property "ts_ms" = .ok ts ∧ js.toISOString ts = .ok timestamp) ∧
    members.lookup "id" = some (.number msg.seatId) ∧
    members.lookup "event_id" = some (.number msg.eventId) ∧
    members.lookup "status" = some (.string (statusText msg.status))

theorem statusOfText_statusText (status : SeatStatus) :
    statusOfText (statusText status) = some status := by
  cases status <;> rfl

/-- The call for a seat change comes to the `DEL`, and has the update to broadcast. -/
theorem handleCdcMessage_of_carries {js : Builtins N} {raw : Option String}
    {msg : SeatUpdateMessage N} (h : Carries js raw msg) :
    handleCdcMessage js raw =
      .del (seatAvailabilityCacheKey js (.number msg.eventId)) (some msg) := by
  obtain ⟨text, payload, op, members, rfl, hparse, hop, hmem, hafter, ⟨ts, timestamp, hts, hiso⟩,
    hid, hevent, hstatus⟩ := h.envelope
  have hne : text ≠ "" := by
    rintro rfl
    rw [js.parse_empty] at hparse
    cases hparse
  -- three of the four operations carry the row after the change
  obtain ⟨type, htype, hdelete⟩ : ∃ type, opToEventType op = some type ∧ type ≠ .delete := by
    simp only [List.mem_cons, List.not_mem_nil, or_false] at hmem
    obtain rfl | rfl | rfl := hmem
    · exact ⟨_, rfl, by decide⟩
    · exact ⟨_, rfl, by decide⟩
    · exact ⟨_, rfl, by decide⟩
  have hmap : mapDebeziumMessage js text = .ok (some ⟨type, .object members, timestamp⟩) := by
    simp [mapDebeziumMessage, hparse, hop, Json.textOf, Json.toText, htype, hdelete, hafter,
      Option.filter, Json.truthy, hts, hiso, bind, Except.bind, pure, Except.pure]
  have hevent : handleEvent js text =
      .ok (.del (seatAvailabilityCacheKey js (.number msg.eventId)) (some msg)) := by
    simp [handleEvent, hmap, Json.property, hevent, EventId.ofJson, hdelete, hid, hstatus,
      seatUpdate, EventId.toNumber, h.finite, statusOfText_statusText, bind, Except.bind, pure,
      Except.pure]
  simp [handleCdcMessage, hne, hevent]

/-! ### Runs -/

section Runs

variable [DecidableEq S] {js : Builtins N} {eventIdParam : String → Option N} {s s' : State N S}

/-- The call has deleted the key of the event, and has sent the update to every socket that
watches the event and is open. -/
structure Ack.Propagated (js : Builtins N) (ack : Ack N S) (msg : SeatUpdateMessage N) :
    Prop where
  deleted : .deleted (seatAvailabilityCacheKey js (.number msg.eventId)) ∈ ack.effects
  sent : ∀ socket, ack.rooms.Watches msg.eventId socket → ack.readyState socket = .opened →
    .sent socket msg ∈ ack.effects

/-- Every call that has resolved for a seat change has propagated it. -/
def State.Propagated (js : Builtins N) (s : State N S) : Prop :=
  ∀ ack ∈ s.acks, ∀ msg, Carries js ack.raw msg → ack.Propagated js msg

/-- The call that waits is one for a seat change. -/
def State.Pending (js : Builtins N) (s : State N S) : Prop :=
  ∀ call, s.call = some call → ∃ msg, Carries js call.raw msg ∧
    call.key = seatAvailabilityCacheKey js (.number msg.eventId) ∧ call.update = some msg

/-- The update that a message carries is the only one. -/
theorem Carries.unique {raw : Option String} {msg msg' : SeatUpdateMessage N}
    (h : Carries js raw msg) (h' : Carries js raw msg') : msg = msg' := by
  have heq := (handleCdcMessage_of_carries h).symm.trans (handleCdcMessage_of_carries h')
  exact Option.some.inj (Handling.del.inj heq).2

omit [Zero N] [DecidableEq N] [DecidableEq S] in
theorem State.propagated_resolve {raw : Option String} {effects : List (Effect N S)} :
    (s.resolve raw effects).Propagated js ↔ s.Propagated js ∧
      ∀ msg, Carries js raw msg → Ack.Propagated js ⟨raw, effects, s.rooms, s.readyState⟩ msg := by
  simp only [State.Propagated, State.resolve, List.mem_append, List.mem_singleton]
  refine ⟨fun h => ⟨fun ack hack => h ack (.inl hack), fun msg => h _ (.inr rfl) msg⟩, ?_⟩
  rintro ⟨h, hraw⟩ ack (hack | rfl) msg
  · exact h ack hack msg
  · exact hraw msg

omit [Zero N] [DecidableEq N] [DecidableEq S] in
/-- After a `DEL` that has resolved, a call does all that it should. -/
theorem State.propagated_afterDel {call : Call N} {msg : SeatUpdateMessage N}
    (hkey : call.key = seatAvailabilityCacheKey js (.number msg.eventId))
    (hupdate : call.update = some msg) :
    Ack.Propagated js ⟨call.raw, s.afterDel call, s.rooms, s.readyState⟩ msg := by
  refine ⟨?_, ?_⟩
  · rw [State.afterDel, hkey]
    exact List.mem_cons_self
  · intro socket hwatches hopened
    rw [State.afterDel, hupdate]
    refine List.mem_cons_of_mem _ (List.mem_map_of_mem ?_)
    exact Rooms.mem_broadcastSeatUpdate.mpr ⟨hwatches, hopened⟩

/-- One step: what is propagated stays so, and only a `DEL` that rejects ends it. -/
theorem State.propagated_step {e : Event S} (hpending : s.Pending js)
    (hmessage : ∀ raw, e = .message raw → ∃ msg, Carries js raw msg)
    (hs : s.step js eventIdParam e = some s') :
    s'.Pending js ∧ (s'.Propagated js ↔ s.Propagated js ∧ e ≠ .del false) := by
  cases e with
  | connect socket param =>
    obtain ⟨-, hs⟩ := Option.ite_none_right_eq_some.mp hs
    split at hs
    · cases hs
      exact ⟨hpending, by simp [State.Propagated]⟩
    · cases hs
      exact ⟨hpending, by simp [State.Propagated]⟩
  | leave socket =>
    obtain ⟨-, hs⟩ := Option.ite_none_right_eq_some.mp hs
    cases hs
    exact ⟨hpending, by simp [State.Propagated]⟩
  | close socket =>
    obtain ⟨-, hs⟩ := Option.ite_none_right_eq_some.mp hs
    cases hs
    exact ⟨hpending, by simp [State.Propagated]⟩
  | message raw =>
    obtain ⟨msg, hmsg⟩ := hmessage raw rfl
    simp only [State.step, handleCdcMessage_of_carries hmsg] at hs
    split at hs
    · cases hs
    · cases hs
      refine ⟨?_, by simp [State.Propagated]⟩
      rintro _ ⟨⟩
      exact ⟨msg, hmsg, rfl, rfl⟩
  | del resolved =>
    obtain ⟨call, hcall, rfl⟩ := Option.map_eq_some_iff.mp hs
    obtain ⟨msg, hmsg, hkey, hupdate⟩ := hpending call hcall
    refine ⟨(fun _ hcall' => by cases hcall'), ?_⟩
    rw [State.propagated_resolve]
    cases resolved with
    | true =>
      have hack (msg' : SeatUpdateMessage N) (hmsg' : Carries js call.raw msg') :
          Ack.Propagated js ⟨call.raw, s.afterDel call, s.rooms, s.readyState⟩ msg' := by
        rw [hmsg'.unique hmsg]
        exact State.propagated_afterDel hkey hupdate
      simpa using fun _ => hack
    -- the cache keeps its entry, and the message is acknowledged nevertheless
    | false =>
      have hnot : ¬ Ack.Propagated js ⟨call.raw, [], s.rooms, s.readyState⟩ msg :=
        fun h => List.not_mem_nil h.deleted
      simpa using fun _ => ⟨msg, hmsg, hnot⟩

theorem State.propagated_run {es : List (Event S)} (hpending : s.Pending js)
    (hmessages : ∀ raw, .message raw ∈ es → ∃ msg, Carries js raw msg)
    (hrun : s.run js eventIdParam es = some s') :
    s'.Propagated js ↔ s.Propagated js ∧ .del false ∉ es := by
  induction es generalizing s with
  | nil =>
    cases hrun
    simp
  | cons e es ih =>
    obtain ⟨s₁, hs, hrun⟩ := Option.bind_eq_some_iff.mp hrun
    have hmessage (raw : Option String) (he : e = .message raw) : ∃ msg, Carries js raw msg :=
      hmessages raw (he ▸ List.mem_cons_self)
    obtain ⟨hpending₁, hstep⟩ := State.propagated_step hpending hmessage hs
    rw [ih hpending₁ (fun raw hraw => hmessages raw (List.mem_cons_of_mem _ hraw)) hrun, hstep,
      and_assoc, List.mem_cons, not_or, ne_comm]

/-- In a run whose messages are seat changes, all that are acknowledged have been propagated if
and only if no `DEL` rejects. -/
theorem propagated_iff_of_run {es : List (Event S)}
    (hmessages : ∀ raw, .message raw ∈ es → ∃ msg, Carries js raw msg)
    (hrun : State.start.run js eventIdParam es = some s) :
    s.Propagated js ↔ .del false ∉ es := by
  have hpending : (State.start : State N S).Pending js := by
    rintro _ ⟨⟩
  have hstart : (State.start : State N S).Propagated js := by
    rintro _ ⟨⟩
  rw [State.propagated_run hpending hmessages hrun]
  exact and_iff_right hstart

end Runs

/-! ### One change -/

/-- Seat 1 of event 7 is held. -/
def heldText : String :=
  "\x7b\"before\":null,\"after\":\x7b\"id\":1,\"event_id\":7,\"status\":\"held\"\x7d," ++
    "\"op\":\"u\",\"ts_ms\":0\x7d"

def heldRow : List (String × Json ℕ) :=
  [("id", .number 1), ("event_id", .number 7), ("status", .string "held")]

def heldPayload : Json ℕ :=
  .object [("before", .null), ("after", .object heldRow), ("op", .string "u"), ("ts_ms", .number 0)]

/-- The language, as far as it reads this message. -/
def natural : Builtins ℕ where
  parse text := if text = heldText then .ok heldPayload else .error .syntaxError
  numberToString := toString
  toNumber text := text.toNat?.getD 0
  isFinite _ := true
  toISOString
    | some (.number 0) => .ok "1970-01-01T00:00:00.000Z"
    | _ => .error .rangeError
  parse_empty := if_neg (by decide)

theorem carries_heldText : Carries natural (some heldText) ⟨1, 7, .held⟩ where
  finite := rfl
  envelope := by
    have hparse : natural.parse heldText = .ok heldPayload := by simp [natural]
    have hts : natural.toISOString (some (.number 0)) = .ok "1970-01-01T00:00:00.000Z" := rfl
    exact ⟨heldText, heldPayload, "u", heldRow, rfl, hparse, rfl, by decide, rfl,
      ⟨_, _, rfl, hts⟩, rfl, rfl, rfl⟩

/-- The parameter of the one client. -/
def sevenParam (param : String) : Option ℕ := if param = "7" then some 7 else none

/-- A client connects, the change comes, and its `DEL` ends. -/
def oneChange (resolved : Bool) : List (Event Unit) :=
  [.connect () "7", .message (some heldText), .del resolved]

theorem carries_oneChange (resolved : Bool) (raw : Option String)
    (h : .message raw ∈ oneChange resolved) : ∃ msg, Carries natural raw msg := by
  have hraw : raw = some heldText := by simpa [oneChange] using h
  exact ⟨_, hraw ▸ carries_heldText⟩

/-- The client watches event 7. -/
def watching : State ℕ Unit where
  rooms := Rooms.subscribe (fun _ => none) 7 ()
  readyState _ := .opened
  watched _ := some 7
  call := none
  acks := []

/-- The call for the change. -/
def heldCall : Call ℕ where
  raw := some heldText
  key := seatAvailabilityCacheKey natural (.number 7)
  update := some ⟨1, 7, .held⟩

/-- The client is there, and the call waits for its `DEL`. -/
theorem run_held :
    State.start.run natural sevenParam [.connect () "7", .message (some heldText)] =
      some { watching with call := some heldCall } := by
  have hconnect : State.start.step natural sevenParam (.connect () "7") = some watching := by
    simp only [State.step, State.start, sevenParam, if_true]
    rfl
  have hmessage : watching.step natural sevenParam (.message (some heldText)) =
      some { watching with call := some heldCall } := by
    simp only [State.step, handleCdcMessage_of_carries carries_heldText]
    rfl
  simp only [State.run, hconnect, hmessage, Option.bind_some]

theorem run_oneChange (resolved : Bool) :
    State.start.run natural sevenParam (oneChange resolved) = some (watching.resolve heldCall.raw
      (if resolved then watching.afterDel heldCall else [])) := by
  have hrun := run_held
  simp only [State.run, Option.bind_eq_some_iff, Option.some.injEq, exists_eq_right] at hrun
  obtain ⟨s, hconnect, hmessage⟩ := hrun
  simp only [oneChange, State.run, hconnect, hmessage, Option.bind_some]
  rfl

theorem propagated_iff_of_run_resolved :
    ∃ s, State.start.run natural sevenParam (oneChange true) = some s ∧ s.acks.length = 1 ∧
      s.Propagated natural := by
  have hrun := run_oneChange true
  refine ⟨_, hrun, rfl, ?_⟩
  exact (propagated_iff_of_run (carries_oneChange true) hrun).mpr (by simp [oneChange])

/-- The `DEL` rejects, the call resolves, and the client that watches is sent nothing. -/
theorem unpropagated_change :
    ∃ s ack, State.start.run natural sevenParam (oneChange false) = some s ∧ s.acks = [ack] ∧
      Carries natural ack.raw ⟨1, 7, .held⟩ ∧ ack.rooms.Watches 7 () ∧
      ack.readyState () = .opened ∧ ack.effects = [] ∧ ¬ s.Propagated natural := by
  refine ⟨_, _, run_oneChange false, rfl, carries_heldText, ?_, rfl, rfl, ?_⟩
  · exact ⟨_, rfl, List.mem_singleton_self ()⟩
  · intro h
    have hack := h _ List.mem_cons_self _ carries_heldText
    exact List.not_mem_nil hack.deleted

end ScalableBooking.Realtime
