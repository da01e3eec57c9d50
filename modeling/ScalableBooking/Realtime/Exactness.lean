import ScalableBooking.Realtime.Grammar

/-!
# Who is sent what

The rooms are built by `liveSeatsHandler` from the parameters of requests, and read by
`handleCdcMessage` with the event ids of rows. A run of the process tells who watches an event: the
sockets that connected for it and whose `close` callback has not run (`Subscribed`). The rooms hold
exactly these (`Registered`), so an update goes once to each of them that is open, and to nobody
else (`sent_exactly_of_run`).
-/

namespace ScalableBooking.Realtime

open Booking (SeatStatus)
open Javascript

variable {N S : Type} [Zero N] [DecidableEq N] [DecidableEq S] {js : Builtins N}
  {eventIdParam : String → Option N}

/-! ### The messages -/

/-- The message reports an insert or an update of this seat. The event id of the row may be a
number or its text. -/
def Updates (js : Builtins N) (raw : Option String) (msg : SeatUpdateMessage N) : Prop :=
  ∃ text members op row value eventId timestamp, raw = some text ∧
    js.parse text = .ok (.object members) ∧
    members.lookup "op" = some (.string op) ∧ op ∈ ["c", "r", "u"] ∧
    members.lookup "after" = some (.object row) ∧
    row.lookup "event_id" = some value ∧ EventId.ofJson value = some eventId ∧
    eventId.toNumber js = msg.eventId ∧ js.isFinite msg.eventId = true ∧
    row.lookup "id" = some (.number msg.seatId) ∧
    row.lookup "status" = some (.string (statusText msg.status)) ∧
    js.toISOString (members.lookup "ts_ms") = .ok timestamp

/-- The message reports a delete, or a row without a valid status. -/
def Silent (js : Builtins N) (raw : Option String) : Prop :=
  ∃ text payload, raw = some text ∧ js.parse text = .ok payload ∧
    (payload.property "op" = .ok (some (.string "d")) ∨
      ∀ row, payload.property "after" = .ok (some row) →
        ∀ status, row.property "status" ≠ .ok (some (.string (statusText status))))

/-- The call for an update comes to the `DEL`, and has the update to broadcast. -/
theorem Updates.handleCdcMessage {raw : Option String} {msg : SeatUpdateMessage N}
    (h : Updates js raw msg) : ∃ key, handleCdcMessage js raw = .del key (some msg) := by
  obtain ⟨text, members, op, row, value, eventId, timestamp, rfl, hparse, hop, hmem, himage, hvalue,
    hid, hnumber, hfinite, hseat, hstatus, hiso⟩ := h
  have hne : text ≠ "" := by
    rintro rfl
    rw [js.parse_empty] at hparse
    cases hparse
  have hopCodes : op ∈ opCodes := List.mem_append_left ["d"] hmem
  obtain ⟨type, htype, hdelete⟩ := opToEventType_of_mem hopCodes
  -- an update has its row in `after`, which a deletion does not
  have hd : op ≠ "d" := by
    rintro rfl
    exact absurd hmem (by decide)
  have hnot : type ≠ .delete := fun h => hd (hdelete.mp h)
  have hmap : mapDebeziumMessage js text = .ok (some ⟨type, .object row, timestamp⟩) := by
    have himage' : members.lookup (imageMember op) = some (.object row) := by
      rw [imageMember, if_neg hd]
      exact himage
    rw [mapDebeziumMessage_eq hparse (congrArg Except.ok hop) rfl (congrArg Except.ok himage') rfl,
      htype, Option.filter_some_pos rfl, hiso]
    rfl
  have hupdate : seatUpdate js eventId (some (.number msg.seatId))
      (some (.string (statusText msg.status))) = some msg := by
    simp [seatUpdate, hnumber, hfinite, statusOfText_statusText]
  refine ⟨seatAvailabilityCacheKey js eventId, ?_⟩
  have hevent :
      handleEvent js text = .ok (.del (seatAvailabilityCacheKey js eventId) (some msg)) := by
    simp [handleEvent, hmap, Json.property, hvalue, hid, hnot, hseat, hstatus, hupdate, bind,
      Except.bind, pure, Except.pure]
  simp [Realtime.handleCdcMessage, hne, hevent]

theorem eq_statusText {text : String} {status : SeatStatus} (h : statusOfText text = some status) :
    text = statusText status := by
  have hfound := List.find?_some h
  exact (of_decide_eq_true hfound).symm

omit [Zero N] [DecidableEq N] in
/-- An update comes of a row with a valid status. -/
theorem of_seatUpdate {eventId : EventId N} {seatId status : Option (Json N)}
    {msg : SeatUpdateMessage N} (h : seatUpdate js eventId seatId status = some msg) :
    status = some (.string (statusText msg.status)) := by
  unfold seatUpdate at h
  split at h
  · obtain ⟨-, h⟩ := Option.ite_none_right_eq_some.mp h
    obtain ⟨status, hstatus, rfl⟩ := Option.map_eq_some_iff.mp h
    rw [eq_statusText hstatus]
  · cases h

/-- The call for a delete, or for a row without a valid status, has nothing to broadcast. -/
theorem Silent.handleCdcMessage {raw : Option String} (h : Silent js raw) {key : String}
    {update : Option (SeatUpdateMessage N)}
    (hhandling : handleCdcMessage js raw = .del key update) : update = none := by
  obtain ⟨_, payload', rfl, hparse', hsilent⟩ := h
  obtain ⟨text, event, value, eventId, htext, hmap, -, -, hupdate⟩ := of_handleCdcMessage hhandling
  cases htext
  obtain hupdate | ⟨hdelete, seatId, status, hstatus, hupdate⟩ := hupdate
  · exact hupdate
  · obtain ⟨payload, op, name, ts, hparse, hop, hname, htype, himage, -⟩ :=
      of_mapDebeziumMessage hmap
    cases hparse.symm.trans hparse'
    have himage' := imageMember_eq htype
    rw [if_neg hdelete] at himage'
    rw [← himage'] at himage
    -- silent as a deletion, or for want of a status
    obtain hd | hstatus' := hsilent
    · cases hop.symm.trans hd
      cases hname
      exact absurd (Option.some.inj htype).symm hdelete
    · rw [hupdate, Option.eq_none_iff_forall_ne_some]
      intro msg hmsg
      rw [of_seatUpdate hmsg] at hstatus
      exact hstatus' event.data himage msg.status hstatus

/-! ### The sockets -/

omit [Zero N] [DecidableEq N] [DecidableEq S] in
/-- In the events so far, the socket has connected with a parameter for the event, and its `close`
callback has not run since. -/
def Subscribed (eventIdParam : String → Option N) (es : List (Event S)) (socket : S)
    (eventId : N) : Prop :=
  ∃ before param after, es = before ++ .connect socket param :: after ∧
    eventIdParam param = some eventId ∧ .close socket ∉ after

omit [Zero N] [DecidableEq N] [DecidableEq S] in
theorem subscribed_concat {es : List (Event S)} {e : Event S} {socket : S} {eventId : N} :
    Subscribed eventIdParam (es ++ [e]) socket eventId ↔
      (∃ param, e = .connect socket param ∧ eventIdParam param = some eventId) ∨
        Subscribed eventIdParam es socket eventId ∧ e ≠ .close socket := by
  constructor
  · rintro ⟨before, param, after, hes, hparam, hclose⟩
    rcases List.eq_nil_or_concat' after with rfl | ⟨after, e', rfl⟩
    · obtain ⟨-, he⟩ := List.append_inj' hes rfl
      exact .inl ⟨param, List.head_eq_of_cons_eq he, hparam⟩
    · rw [← List.cons_append, ← List.append_assoc] at hes
      obtain ⟨hes', he⟩ := List.append_inj' hes rfl
      rw [List.mem_append, not_or, ← he, List.mem_singleton] at hclose
      exact .inr ⟨⟨before, param, after, hes', hparam, hclose.1⟩, Ne.symm hclose.2⟩
  · rintro (⟨param, rfl, hparam⟩ | ⟨⟨before, param, after, rfl, hparam, hclose⟩, he⟩)
    · exact ⟨es, param, [], rfl, hparam, List.not_mem_nil⟩
    · refine ⟨before, param, after ++ [e], by simp, hparam, ?_⟩
      rw [List.mem_append, List.mem_singleton, not_or]
      exact ⟨hclose, Ne.symm he⟩

/-- What the process knows after the events: the rooms hold the sockets that are subscribed, none
is empty, and the state of a socket tells whether it has come and gone. -/
structure Registered (js : Builtins N) (eventIdParam : String → Option N) (es : List (Event S))
    (s : State N S) : Prop where
  rooms : ∀ eventId socket,
    s.rooms.Watches eventId socket ↔ Subscribed eventIdParam es socket eventId
  noneEmpty : s.rooms.NoneEmpty
  watched : ∀ socket eventId, Subscribed eventIdParam es socket eventId →
    s.watched socket = some eventId
  fresh : ∀ socket, s.readyState socket = .connecting →
    (∀ param, .connect socket param ∉ es) ∧ .leave socket ∉ es
  opened : ∀ socket eventId, Subscribed eventIdParam es socket eventId →
    (s.readyState socket = .opened ↔ .leave socket ∉ es)
  calling : ∀ call, s.call = some call →
    handleCdcMessage js call.raw = .del call.key call.update

namespace Registered

variable {es : List (Event S)} {s s' : State N S} {e : Event S}

omit [DecidableEq S] in
theorem start : Registered (S := S) js eventIdParam [] State.start := by
  have hsubscribed (socket : S) (eventId : N) : ¬Subscribed eventIdParam [] socket eventId := by
    rintro ⟨before, param, after, hes, -⟩
    cases before <;> cases hes
  refine ⟨?_, ?_, ?_, ?_, ?_, ?_⟩
  · intro eventId socket
    refine iff_of_false ?_ (hsubscribed socket eventId)
    rintro ⟨room, hroom, -⟩
    cases hroom
  · rintro eventId room ⟨⟩
  · intro socket eventId h
    exact absurd h (hsubscribed socket eventId)
  · simp
  · intro socket eventId h
    exact absurd h (hsubscribed socket eventId)
  · rintro call ⟨⟩

omit [DecidableEq S] in
/-- A step that is neither a new socket nor the end of one. -/
theorem quiet (h : Registered js eventIdParam es s)
    (hconnect : ∀ socket param, e ≠ .connect socket param)
    (hleave : ∀ socket, e ≠ .leave socket) (hclose : ∀ socket, e ≠ .close socket)
    (hrooms : s'.rooms = s.rooms) (hready : s'.readyState = s.readyState)
    (hwatched : s'.watched = s.watched)
    (hcalling : ∀ call, s'.call = some call →
      handleCdcMessage js call.raw = .del call.key call.update) :
    Registered js eventIdParam (es ++ [e]) s' := by
  -- the event is none of those that decide who is subscribed
  have hsubscribed (socket : S) (eventId : N) : Subscribed eventIdParam (es ++ [e]) socket eventId ↔
      Subscribed eventIdParam es socket eventId := by
    simp [subscribed_concat, hconnect, hclose]
  have hmem {e' : Event S} (he : e' ≠ e) : e' ∈ es ++ [e] ↔ e' ∈ es := by
    simp [he]
  refine ⟨?_, hrooms ▸ h.noneEmpty, ?_, ?_, ?_, hcalling⟩
  · intro eventId socket
    rw [hrooms, hsubscribed]
    exact h.rooms eventId socket
  · intro socket eventId hs
    rw [hwatched]
    exact h.watched socket eventId ((hsubscribed socket eventId).mp hs)
  · intro socket hs
    rw [hready] at hs
    obtain ⟨hnone, hleft⟩ := h.fresh socket hs
    refine ⟨fun param => ?_, ?_⟩
    · rw [hmem (hconnect socket param).symm]
      exact hnone param
    · rw [hmem (hleave socket).symm]
      exact hleft
  · intro socket eventId hs
    rw [hready, hmem (hleave socket).symm]
    exact h.opened socket eventId ((hsubscribed socket eventId).mp hs)

omit [DecidableEq S] in
/-- A socket that connects has not been subscribed before. -/
theorem not_subscribed (h : Registered js eventIdParam es s) {socket : S}
    (hs : s.readyState socket = .connecting) (eventId : N) :
    ¬Subscribed eventIdParam es socket eventId := by
  rintro ⟨before, param, after, rfl, -⟩
  exact (h.fresh socket hs).1 param (List.mem_append_right _ List.mem_cons_self)

omit [DecidableEq S] in
/-- A step of one socket: what has to be shown of the rooms and of this socket. -/
theorem move (h : Registered js eventIdParam es s) {socket : S}
    (he : ∀ socket', socket' ≠ socket →
      (∀ param, e ≠ .connect socket' param) ∧ e ≠ .leave socket' ∧ e ≠ .close socket')
    (hready : ∀ socket', socket' ≠ socket → s'.readyState socket' = s.readyState socket')
    (hwatched : ∀ socket', socket' ≠ socket → s'.watched socket' = s.watched socket')
    (hcall : s'.call = s.call)
    (hrooms : ∀ eventId socket',
      s'.rooms.Watches eventId socket' ↔ Subscribed eventIdParam (es ++ [e]) socket' eventId)
    (hnoneEmpty : s'.rooms.NoneEmpty) (hfresh : s'.readyState socket ≠ .connecting)
    (hself : ∀ eventId, Subscribed eventIdParam (es ++ [e]) socket eventId →
      s'.watched socket = some eventId ∧
        (s'.readyState socket = .opened ↔ .leave socket ∉ es ++ [e])) :
    Registered js eventIdParam (es ++ [e]) s' := by
  have hsubscribed {socket' : S} (hne : socket' ≠ socket) {eventId : N}
      (hs : Subscribed eventIdParam (es ++ [e]) socket' eventId) :
      Subscribed eventIdParam es socket' eventId := by
    rcases subscribed_concat.mp hs with ⟨param, heq, -⟩ | ⟨hs, -⟩
    · exact absurd heq ((he socket' hne).1 param)
    · exact hs
  -- for the other sockets the event is as if it had not been
  have hleave {socket' : S} (hne : socket' ≠ socket) :
      .leave socket' ∈ es ++ [e] ↔ .leave socket' ∈ es := by
    simp [(he socket' hne).2.1.symm]
  refine ⟨hrooms, hnoneEmpty, ?_, ?_, ?_, hcall ▸ h.calling⟩
  · intro socket' eventId hs
    by_cases heq : socket' = socket
    · subst heq
      exact (hself eventId hs).1
    · rw [hwatched socket' heq]
      exact h.watched socket' eventId (hsubscribed heq hs)
  · intro socket' hs
    have hne : socket' ≠ socket := by
      rintro rfl
      exact hfresh hs
    rw [hready socket' hne] at hs
    obtain ⟨hnone, hleft⟩ := h.fresh socket' hs
    refine ⟨?_, (hleave hne).not.mpr hleft⟩
    intro param
    simpa [((he socket' hne).1 param).symm] using hnone param
  · intro socket' eventId hs
    by_cases heq : socket' = socket
    · subst heq
      exact (hself eventId hs).2
    · rw [hready socket' heq, hleave heq]
      exact h.opened socket' eventId (hsubscribed heq hs)

/-- A client connects. -/
theorem connect (h : Registered js eventIdParam es s) {socket : S} {param : String}
    (hs : s.step js eventIdParam (.connect socket param) = some s') :
    Registered js eventIdParam (es ++ [.connect socket param]) s' := by
  obtain ⟨hready, hs⟩ := Option.ite_none_right_eq_some.mp hs
  have hnot := h.not_subscribed hready
  have hleave : .leave socket ∉ es ++ [.connect socket param] := by
    simpa using (h.fresh socket hready).2
  have hsubscribed (socket' : S) (eventId : N) :
      Subscribed eventIdParam (es ++ [.connect socket param]) socket' eventId ↔
        socket' = socket ∧ eventIdParam param = some eventId ∨
          Subscribed eventIdParam es socket' eventId := by
    rw [subscribed_concat]
    simp [eq_comm]
  have he (socket' : S) (hne : socket' ≠ socket) :
      (∀ param', Event.connect socket param ≠ .connect socket' param') ∧
        Event.connect socket param ≠ .leave socket' ∧
          Event.connect socket param ≠ .close socket' := by
    simp [hne.symm]
  split at hs
  · -- the route has no valid event id, so the socket is open and in no room
    rename_i hparam
    cases hs
    refine h.move he (fun _ hne => Function.update_of_ne hne _ _) (fun _ _ => rfl) rfl ?_
      h.noneEmpty (by simp) ?_
    · intro eventId socket'
      rw [hsubscribed, hparam, h.rooms]
      simp
    · intro eventId hs
      rw [hsubscribed, hparam] at hs
      simp [hnot eventId] at hs
  · rename_i eventId hparam
    cases hs
    refine h.move he (fun _ hne => Function.update_of_ne hne _ _)
      (fun _ hne => Function.update_of_ne hne _ _) rfl ?_ (h.noneEmpty.subscribe eventId socket)
      (by simp) ?_
    · intro eventId' socket'
      rw [hsubscribed, Rooms.watches_subscribe_iff, h.rooms, hparam, Option.some.injEq,
        eq_comm (a := eventId), and_comm]
    · intro eventId' hs
      rw [hsubscribed, hparam] at hs
      obtain ⟨-, heq⟩ := hs.resolve_right (hnot eventId')
      cases heq
      exact ⟨Function.update_self _ _ _, iff_of_true (Function.update_self _ _ _) hleave⟩

/-- A socket is no longer open. -/
theorem leave (h : Registered js eventIdParam es s) {socket : S}
    (hs : s.step js eventIdParam (.leave socket) = some s') :
    Registered js eventIdParam (es ++ [.leave socket]) s' := by
  obtain ⟨-, hs⟩ := Option.ite_none_right_eq_some.mp hs
  cases hs
  have hsubscribed (socket' : S) (eventId : N) :
      Subscribed eventIdParam (es ++ [.leave socket]) socket' eventId ↔
        Subscribed eventIdParam es socket' eventId := by
    simp [subscribed_concat]
  refine h.move (by simp +contextual [eq_comm]) (fun _ hne => Function.update_of_ne hne _ _)
    (fun _ _ => rfl) rfl ?_ h.noneEmpty (by simp) ?_
  · intro eventId socket'
    rw [hsubscribed]
    exact h.rooms eventId socket'
  · intro eventId hs
    exact ⟨h.watched socket eventId ((hsubscribed socket eventId).mp hs), by simp⟩

/-- The `close` callback of a socket runs. -/
theorem close (h : Registered js eventIdParam es s) {socket : S}
    (hs : s.step js eventIdParam (.close socket) = some s') :
    Registered js eventIdParam (es ++ [.close socket]) s' := by
  obtain ⟨-, hs⟩ := Option.ite_none_right_eq_some.mp hs
  cases hs
  have hsubscribed (socket' : S) (eventId : N) :
      Subscribed eventIdParam (es ++ [.close socket]) socket' eventId ↔
        Subscribed eventIdParam es socket' eventId ∧ socket' ≠ socket := by
    simp [subscribed_concat, eq_comm]
  refine h.move (by simp +contextual [eq_comm]) (fun _ hne => Function.update_of_ne hne _ _)
    (fun _ _ => rfl) rfl ?_ ?_ (by simp) ?_
  · intro eventId socket'
    rw [hsubscribed, ← h.rooms]
    -- the callback has the one event in scope that the socket watches
    have hscope (hwatches : s.rooms.Watches eventId socket) : s.watched socket = some eventId :=
      h.watched socket eventId ((h.rooms eventId socket).mp hwatches)
    cases hwatched : s.watched socket with
    | none =>
      refine ⟨fun hwatches => ⟨hwatches, ?_⟩, And.left⟩
      rintro rfl
      rw [hscope hwatches] at hwatched
      cases hwatched
    | some eventId' =>
      simp only [Option.elim_some, Rooms.watches_unsubscribe_iff]
      refine and_congr_right fun hwatches => not_congr (and_iff_right_of_imp ?_)
      rintro rfl
      rw [hscope hwatches] at hwatched
      exact Option.some.inj hwatched
  · cases hwatched : s.watched socket with
    | none => exact h.noneEmpty
    | some eventId => exact h.noneEmpty.unsubscribe eventId socket
  · intro eventId hs
    exact absurd rfl ((hsubscribed socket eventId).mp hs).2

/-- A message comes, or the `DEL` of a call ends. -/
theorem handle (h : Registered js eventIdParam es s)
    (he : (∃ raw, e = .message raw) ∨ ∃ resolved, e = .del resolved)
    (hs : s.step js eventIdParam e = some s') : Registered js eventIdParam (es ++ [e]) s' := by
  rcases he with ⟨raw, rfl⟩ | ⟨resolved, rfl⟩
  · simp only [State.step] at hs
    split at hs
    · cases hs
    · split at hs
      · cases hs
        exact h.quiet (by simp) (by simp) (by simp) rfl rfl rfl (by rintro call ⟨⟩)
      · rename_i key update hhandling
        cases hs
        refine h.quiet (by simp) (by simp) (by simp) rfl rfl rfl ?_
        rintro call ⟨⟩
        exact hhandling
  · obtain ⟨call, -, rfl⟩ := Option.map_eq_some_iff.mp hs
    exact h.quiet (by simp) (by simp) (by simp) rfl rfl rfl (by rintro call ⟨⟩)

theorem step (h : Registered js eventIdParam es s) (hs : s.step js eventIdParam e = some s') :
    Registered js eventIdParam (es ++ [e]) s' := by
  cases e with
  | connect socket param => exact h.connect hs
  | leave socket => exact h.leave hs
  | close socket => exact h.close hs
  | message raw => exact h.handle (.inl ⟨raw, rfl⟩) hs
  | del resolved => exact h.handle (.inr ⟨resolved, rfl⟩) hs

theorem run {es' : List (Event S)} (h : Registered js eventIdParam es s)
    (hrun : s.run js eventIdParam es' = some s') : Registered js eventIdParam (es ++ es') s' := by
  induction es' generalizing s es with
  | nil =>
    cases hrun
    rwa [List.append_nil]
  | cons e es' ih =>
    obtain ⟨s₁, hs, hrun⟩ := Option.bind_eq_some_iff.mp hrun
    rw [List.append_cons]
    exact ih (h.step hs) hrun

end Registered

/-! ### The effects -/

/-- What an effect sends to the socket. -/
def Effect.sentTo (socket : S) : Effect N S → Option (SeatUpdateMessage N)
  | .sent socket' msg => if socket' = socket then some msg else none
  | .deleted _ => none

/-- What a call has sent to the socket. -/
def Ack.sentTo (ack : Ack N S) (socket : S) : List (SeatUpdateMessage N) :=
  ack.effects.filterMap (Effect.sentTo socket)

omit [Zero N] [DecidableEq N] in
theorem filterMap_sent {sockets : List S} (h : sockets.Nodup) (msg : SeatUpdateMessage N)
    (socket : S) : (sockets.map fun socket' => (.sent socket' msg : Effect N S)).filterMap
      (Effect.sentTo socket) = if socket ∈ sockets then [msg] else [] := by
  induction sockets with
  | nil => rfl
  | cons socket' sockets ih =>
    obtain ⟨hnot, hnodup⟩ := List.nodup_cons.mp h
    by_cases heq : socket' = socket
    · subst heq
      simp [Effect.sentTo, ih hnodup, hnot]
    · simp [Effect.sentTo, ih hnodup, heq, Ne.symm heq]

omit [Zero N] [DecidableEq N] in
/-- After its `DEL`, a call sends its update once to each socket that watches the event and is
open. -/
theorem sentTo_afterDel {s : State N S} (call : Call N) (hnodup : ∀ msg,
    (s.rooms.broadcastSeatUpdate s.readyState msg).Nodup) (socket : S) :
    (s.afterDel call).filterMap (Effect.sentTo socket) = match call.update with
      | none => []
      | some msg =>
          if socket ∈ s.rooms.broadcastSeatUpdate s.readyState msg then [msg] else [] := by
  rw [State.afterDel]
  cases call.update with
  | none => rfl
  | some msg => exact filterMap_sent (hnodup msg) msg socket

section Runs

variable {es : List (Event S)} {s s' : State N S} {e : Event S} {ack : Ack N S}

/-- A step that ends a call, with a working Redis: the call has nothing to do, or its `DEL` has
resolved. -/
theorem of_ack (he : e ≠ .del false) (hs : s.step js eventIdParam e = some s')
    (hack : s'.acks = s.acks ++ [ack]) :
    handleCdcMessage js ack.raw = .resolved ∧ ack.effects = [] ∨
      ∃ call, s.call = some call ∧ ack.raw = call.raw ∧ ack.effects = s.afterDel call := by
  have hsame (hacks : s'.acks = s.acks) : False := by
    rw [hacks] at hack
    exact List.cons_ne_nil _ _ (List.self_eq_append_right.mp hack)
  -- two events acknowledge: a message without a call, and the end of a call
  have hlast {ack' : Ack N S} (hacks : s'.acks = s.acks ++ [ack']) : ack' = ack :=
    List.singleton_inj.mp (List.append_cancel_left (hacks.symm.trans hack))
  cases e with
  | connect socket param =>
    obtain ⟨-, hs⟩ := Option.ite_none_right_eq_some.mp hs
    split at hs <;> cases hs <;> exact (hsame rfl).elim
  | leave socket =>
    obtain ⟨-, hs⟩ := Option.ite_none_right_eq_some.mp hs
    cases hs
    exact (hsame rfl).elim
  | close socket =>
    obtain ⟨-, hs⟩ := Option.ite_none_right_eq_some.mp hs
    cases hs
    exact (hsame rfl).elim
  | message raw =>
    simp only [State.step] at hs
    split at hs
    · cases hs
    · split at hs
      · rename_i hhandling
        cases hs
        cases hlast rfl
        exact .inl ⟨hhandling, rfl⟩
      · cases hs
        exact (hsame rfl).elim
  | del resolved =>
    obtain ⟨call, hcall, rfl⟩ := Option.map_eq_some_iff.mp hs
    cases hlast rfl
    cases resolved with
    | false => exact absurd rfl he
    | true => exact .inr ⟨call, hcall, rfl, rfl⟩

/-- In every state of a run no room is empty. With a working Redis, the call that ends next has
sent its update, if it was for one, exactly once to each socket that is subscribed to the event
and has not left, and nothing to the others; and it has sent nothing if it was for a delete or for
a row without a valid status. -/
theorem sent_exactly_of_run (hrun : State.start.run js eventIdParam es = some s) :
    s.rooms.NoneEmpty ∧
      ∀ e s' ack, e ≠ .del false → s.step js eventIdParam e = some s' →
        s'.acks = s.acks ++ [ack] →
          (∀ msg, Updates js ack.raw msg → ∀ socket,
            (Subscribed eventIdParam es socket msg.eventId ∧ .leave socket ∉ es →
              ack.sentTo socket = [msg]) ∧
            (¬(Subscribed eventIdParam es socket msg.eventId ∧ .leave socket ∉ es) →
              ack.sentTo socket = [])) ∧
          (Silent js ack.raw → ∀ socket, ack.sentTo socket = []) := by
  have h : Registered js eventIdParam es s := Registered.start.run hrun
  refine ⟨h.noneEmpty, ?_⟩
  intro e s' ack he hs hack
  rcases of_ack he hs hack with ⟨hhandling, heffects⟩ | ⟨call, hcall, hraw, heffects⟩
  · refine ⟨?_, ?_⟩
    · intro msg hmsg
      obtain ⟨key, hdel⟩ := hmsg.handleCdcMessage
      cases hhandling.symm.trans hdel
    · intro _ socket
      rw [Ack.sentTo, heffects]
      rfl
  · have hhandling := h.calling call hcall
    rw [← hraw] at hhandling
    have hsent (socket : S) := sentTo_afterDel call
      (fun msg => s.rooms.nodup_broadcastSeatUpdate s.readyState msg) socket
    refine ⟨?_, ?_⟩
    · intro msg hmsg socket
      obtain ⟨key, hdel⟩ := hmsg.handleCdcMessage
      obtain ⟨-, hupdate⟩ := Handling.del.inj (hhandling.symm.trans hdel)
      -- the room holds the subscribers, and the open ones among them are those that have not left
      have hmem : socket ∈ s.rooms.broadcastSeatUpdate s.readyState msg ↔
          Subscribed eventIdParam es socket msg.eventId ∧ .leave socket ∉ es := by
        rw [Rooms.mem_broadcastSeatUpdate, h.rooms]
        exact and_congr_right fun hsubscribed => h.opened socket msg.eventId hsubscribed
      rw [Ack.sentTo, heffects, hsent, hupdate, ← hmem]
      exact ⟨fun hin => if_pos hin, fun hnot => if_neg hnot⟩
    · intro hsilent socket
      rw [Ack.sentTo, heffects, hsent, hsilent.handleCdcMessage hhandling]

end Runs

/-- The client that watches event 7 is sent the change. -/
theorem sent_exactly_of_run_held :
    ∃ s s' : State ℕ Unit, ∃ ack, State.start.run natural sevenParam
        [.connect () "7", .message (some heldText)] = some s ∧
      s.step natural sevenParam (.del true) = some s' ∧ s'.acks = s.acks ++ [ack] ∧
      ack.sentTo () = [⟨1, 7, .held⟩] := by
  have hparse : natural.parse heldText = .ok heldPayload := by simp [natural]
  have hupdates : Updates natural (some heldText) ⟨1, 7, .held⟩ :=
    ⟨heldText, _, "u", heldRow, .number 7, .number 7, "1970-01-01T00:00:00.000Z", rfl, hparse, rfl,
      by decide, rfl, rfl, rfl, rfl, rfl, rfl, rfl, rfl⟩
  have hsubscribed : Subscribed sevenParam [.connect () "7", .message (some heldText)] () 7 :=
    ⟨[], "7", [.message (some heldText)], rfl, rfl, by simp⟩
  obtain ⟨-, hsent⟩ := sent_exactly_of_run run_held
  refine ⟨_, _, _, run_held, rfl, rfl, ?_⟩
  exact ((hsent (.del true) _ _ (by simp) rfl rfl).1 _ hupdates ()).1 ⟨hsubscribed, by simp⟩

end ScalableBooking.Realtime
