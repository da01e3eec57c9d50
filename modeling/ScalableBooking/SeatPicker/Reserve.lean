import ScalableBooking.Api.Answers
import ScalableBooking.Lib.Runs
import ScalableBooking.SeatPicker.Page

/-!
# From the seat map to the review

`SeatPickerPage` as its user sees it: the selection, and `handleReserve` with its loop of requests.
While a request is awaited the page goes on, so live updates, answers for the seat map and clicks
come in between, and change the selection that the loop is about. The loop keeps the list that it
was started with.

The ids of the bookings go through the address of the next page and back, as text: to `CheckoutPage`
for one booking, to `MultiCheckoutPage` for more. These ask for exactly the bookings that the page
has been told of, in the order in which they were made (`reserved_of_run`). A booking whose answer
is lost is like a refusal to the page. What is selected at any time is `selected_of_run`.

The page is followed from its mounting until it navigates.
-/

namespace ScalableBooking.SeatPicker

open Api (Number Id)
open Booking (SeatStatus)

/-! ### The next page -/

/-- The columns of a seat that make its label. -/
structure Place where
  sectionName : String
  rowLabel : String
  seatNumber : ℕ

def Place.seatLabel (place : Place) : String :=
  place.sectionName ++ " " ++ place.rowLabel ++ toString place.seatNumber

/-- Where the page navigates: to the form for the login, to `/bookings/:bookingId/review`, or to
`/checkout?ids=` with the warning that goes along. -/
inductive Location where
  | login
  | review (bookingId : String)
  | checkout (ids : String) (warning : Option String)
deriving DecidableEq, Repr

section Text

variable (js : Javascript.Builtins Number)

/-- The text of an id in a template. -/
def idText (id : Id) : String := js.numberToString (.finite id.val)

/-- `bookingIds.join(",")` -/
def joinIds (ids : List Id) : String := String.intercalate "," (ids.map (idText js))

/-- `Number.isInteger(n) && n > 0` -/
def isPositiveInteger : Number → Bool
  | .finite x => x.den = 1 ∧ 0 < x
  | .nan | .infinity _ => false

/-- The `ids` of `MultiCheckoutPage`, from the parameter of this name. -/
def multiCheckoutIds (ids : Option String) : List Number :=
  ((((ids.getD "").split ',').toList.map (·.copy)).map js.toNumber).filter isPositiveInteger

/-- The ids that the next page calls `getBooking` with. -/
def Location.asked : Location → List Number
  | login => []
  | review bookingId => [js.toNumber bookingId]
  | checkout ids _ => multiCheckoutIds js (some ids)

/-- The id is written in decimal digits, and read back. -/
structure Decimal (id : Id) : Prop where
  written : idText js id = toString id.val
  read : js.toNumber (toString id.val) = .finite id.val

variable {js}

theorem Decimal.comma_notMem {id : Id} (h : Decimal js id) : ',' ∉ (idText js id).toList := by
  rw [h.written]
  intro hmem
  have hdigit : ','.isDigit = true :=
    Nat.isDigit_of_mem_toDigits (b := 10) (n := id.val) (by decide) (by decide)
      (by simpa using hmem)
  revert hdigit
  decide

/-- What is joined for the address is what `MultiCheckoutPage` reads there. -/
theorem multiCheckoutIds_joinIds {ids : List Id} (h : ∀ id ∈ ids, Decimal js id) (hne : ids ≠ []) :
    multiCheckoutIds js (some (joinIds js ids)) = ids.map fun id => Number.finite id.val := by
  have hsplit : ((joinIds js ids).split ',').toList.map (·.copy) = ids.map (idText js) := by
    refine (String.toList_split_intercalate ?_).trans (if_neg (by simpa using hne))
    intro text htext
    obtain ⟨id, hid, rfl⟩ := List.mem_map.mp htext
    exact (h id hid).comma_notMem
  have hread : (ids.map (idText js)).map js.toNumber = ids.map fun id => Number.finite id.val := by
    rw [List.map_map]
    refine List.map_congr_left fun id hid => ?_
    rw [Function.comp_apply, (h id hid).written, (h id hid).read]
  unfold multiCheckoutIds
  rw [Option.getD_some, hsplit, hread, List.filter_eq_self]
  intro n hn
  obtain ⟨id, -, rfl⟩ := List.mem_map.mp hn
  simpa [isPositiveInteger] using id.pos

end Text

/-! ### The page -/

/-- The loop of `handleReserve`: the seats it was started with, those whose answer is due, and what
the others have come to. -/
structure Batch (N : Type) where
  chosen : List (Seat N)
  todo : List (Seat N)
  bookingIds : List Id
  failed : List String

/-- What the page keeps. It is `reserving` as long as there is a batch. `mounting` says whether the
first answer for the seat map is due, `refetches` how many others are. -/
structure Picker (N : Type) where
  page : Page N
  error : Option String
  mounting : Bool
  refetches : ℕ
  batch : Option (Batch N)
  location : Option Location

/-- What comes of a reservation: the booking is made and the page is told, or the booking is made
and the answer is lost, or there is no booking. The last two come with the text that is shown. -/
inductive Reply where
  | told (id : Id)
  | lost (id : Id) (message : String)
  | refused (message : String)

/-- What `reserveSeat` of `api.ts` returns to the page, or the text of its error. -/
def Reply.result : Reply → Except String Id
  | told id => .ok id
  | lost _ message | refused message => .error message

/-- The booking that the backend has made. -/
def Reply.booked : Reply → Option Id
  | told id | lost id _ => some id
  | refused _ => none

/-- The booking that the page does not know of. -/
def Reply.unknown : Reply → Option Id
  | lost id _ => some id
  | told _ | refused _ => none

/-- An answer for the seat map comes, or the request fails. A message comes on the socket. The user
clicks on a seat, or on the button, logged in or not. A reservation has come to its end. -/
inductive PickerEvent (N : Type) where
  | mounted (seats : Option (List (Seat N)))
  | refetched (seats : Option (List (Seat N)))
  | live (seatId : N) (status : SeatStatus)
  | click (seat : Seat N)
  | reserve (user : Bool)
  | answer (reply : Reply)

section Model

variable {N : Type} (js : Javascript.Builtins Number) (place : N → Place)

/-- What is said of a seat that could not be reserved. -/
def failure (seat : Seat N) (message : String) : String :=
  (place seat.id).seatLabel ++ " (" ++ message ++ ")"

/-- The loop goes on with the answer for its next seat. -/
def Batch.record (b : Batch N) (seat : Seat N) (todo : List (Seat N)) :
    Except String Id → Batch N
  | .ok id => { b with todo, bookingIds := b.bookingIds ++ [id] }
  | .error message => { b with todo, failed := b.failed ++ [failure place seat message] }

namespace Picker

def mount : Picker N where
  page := { seats := none, selected := [] }
  error := none
  mounting := true
  refetches := 0
  batch := none
  location := none

/-- Where `handleReserve` navigates when something has been booked. -/
def nextPage (chosen : List (Seat N)) (bookingIds : List Id) (failed : List String) : Location :=
  if failed ≠ [] then
    .checkout (joinIds js bookingIds) (some ("Reserved " ++ toString bookingIds.length ++ " of " ++
      toString chosen.length ++ " — couldn't get: " ++ String.intercalate ", " failed))
  else
    match bookingIds with
    | [id] => .review (idText js id)
    | _ => .checkout (joinIds js bookingIds) none

/-- The rest of `handleReserve`, after the loop. -/
def finish (s : Picker N) (b : Batch N) : Picker N :=
  if b.bookingIds = [] then
    { s with
      batch := none
      error := some ("Couldn't reserve any of the selected seats: " ++
        String.intercalate ", " b.failed)
      page := { s.page with selected := [] }
      refetches := s.refetches + 1 }
  else
    { s with
      batch := none
      location := some (nextPage js b.chosen b.bookingIds b.failed) }

variable [DecidableEq N]

/-- One step while the page is mounted. -/
def next (s : Picker N) : PickerEvent N → Option (Picker N)
  | .mounted seats =>
      if s.mounting then
        match seats with
        | some seats =>
            some { s with page := { s.page with seats := some seats }, mounting := false }
        | none =>
            some { s with error := some "Couldn't load the seat map right now.", mounting := false }
      else none
  | .refetched seats =>
      if 0 < s.refetches then
        match seats with
        | some seats => some { s with
            page := { s.page with seats := some seats }, refetches := s.refetches - 1 }
        -- nobody handles the rejection
        | none => some { s with refetches := s.refetches - 1 }
      else none
  | .live seatId status => some { s with page := s.page.handleLiveUpdate seatId status }
  | .click seat =>
      -- a seat of the map, or one of the bar below it
      if (s.page.seats.getD []).contains seat || s.page.selected.contains seat then
        some { s with page := s.page.toggleSeat seat }
      else none
  | .reserve user =>
      -- the button is disabled without a selection, and while the loop runs
      if s.page.selected ≠ [] ∧ s.batch.isNone then
        if user then
          some { s with error := none, batch := some ⟨s.page.selected, s.page.selected, [], []⟩ }
        else some { s with location := some .login }
      else none
  | .answer reply =>
      match s.batch with
      | some b =>
        match b.todo with
        | [] => none
        | seat :: todo =>
          let b := b.record place seat todo reply.result
          some (if todo = [] then s.finish js b else { s with batch := some b })
      | none => none

/-- One step, if it can happen. -/
def step (s : Picker N) (e : PickerEvent N) : Option (Picker N) :=
  if s.location = none then s.next js place e else none

def run (s : Picker N) (es : List (PickerEvent N)) : Option (Picker N) :=
  es.foldlM (step js place) s

end Picker

end Model

namespace Picker

/-! ### What is selected -/

section Selection

variable {N : Type} [DecidableEq N] {js : Javascript.Builtins Number} {place : N → Place}
variable {s s' : Picker N} {past : List (PickerEvent N)} {e : PickerEvent N}

/-- The selection after the events `past`: no more than eight seats, each of them once, as it was
clicked when it was available; and since this click no message has taken it away. -/
structure Chosen (past : List (PickerEvent N)) (selected : List (Seat N)) : Prop where
  length : selected.length ≤ maxSelection
  nodup : (selected.map Seat.id).Nodup
  available : ∀ seat ∈ selected, seat.status = .available
  clicked : ∀ seat ∈ selected, ∃ es₁ es₂, past = es₁ ++ .click seat :: es₂ ∧
    ∀ status, status ≠ .available → .live seat.id status ∉ es₂

namespace Chosen

variable {selected : List (Seat N)}

omit [DecidableEq N] in
theorem nil (past : List (PickerEvent N)) : Chosen past [] where
  length := Nat.zero_le _
  nodup := List.nodup_nil
  available _ h := absurd h List.not_mem_nil
  clicked _ h := absurd h List.not_mem_nil

omit [DecidableEq N] in
/-- Some seats are given up, among them the one that a message takes away. -/
theorem sublist (h : Chosen past selected) {selected' : List (Seat N)}
    (hsub : selected'.Sublist selected)
    (hlive : ∀ seatId status, e = .live seatId status → status ≠ .available →
      ∀ seat ∈ selected', seat.id ≠ seatId) : Chosen (past ++ [e]) selected' where
  length := hsub.length_le.trans h.length
  nodup := h.nodup.sublist (hsub.map _)
  available seat hseat := h.available seat (hsub.subset hseat)
  clicked seat hseat := by
    obtain ⟨es₁, es₂, rfl, hes₂⟩ := h.clicked seat (hsub.subset hseat)
    refine ⟨es₁, es₂ ++ [e], by simp, fun status hstatus hmem => ?_⟩
    obtain hmem | hmem := List.mem_append.mp hmem
    · exact hes₂ status hstatus hmem
    · exact hlive seat.id status (List.mem_singleton.mp hmem).symm hstatus seat hseat rfl

omit [DecidableEq N] in
/-- A seat is added. -/
theorem click (h : Chosen past selected) {seat : Seat N} (hstatus : seat.status = .available)
    (hnew : seat.id ∉ selected.map Seat.id) (hlt : selected.length < maxSelection) :
    Chosen (past ++ [.click seat]) (selected ++ [seat]) where
  length := by
    rw [List.length_append]
    exact hlt
  nodup := by
    rw [List.map_append, List.nodup_append]
    refine ⟨h.nodup, List.nodup_singleton _, ?_⟩
    rintro id hid _ hseat rfl
    exact hnew (List.mem_singleton.mp hseat ▸ hid)
  available := by
    intro seat' hseat'
    obtain hseat' | hseat' := List.mem_append.mp hseat'
    · exact h.available seat' hseat'
    · rw [List.mem_singleton.mp hseat', hstatus]
  clicked := by
    intro seat' hseat'
    obtain hseat' | hseat' := List.mem_append.mp hseat'
    · exact (h.sublist (e := .click seat) (.refl _) nofun).clicked seat' hseat'
    · rw [List.mem_singleton.mp hseat']
      exact ⟨past, [], rfl, fun _ _ => List.not_mem_nil⟩

end Chosen

/-- **The step lemma.** -/
theorem Chosen.step (h : Chosen past s.page.selected) (hs : s.step js place e = some s') :
    Chosen (past ++ [e]) s'.page.selected := by
  obtain ⟨-, hs⟩ := Option.ite_none_right_eq_some.mp hs
  cases e with
  | mounted seats =>
    obtain ⟨-, hs⟩ := Option.ite_none_right_eq_some.mp hs
    cases seats <;> cases hs <;> exact h.sublist (.refl _) nofun
  | refetched seats =>
    obtain ⟨-, hs⟩ := Option.ite_none_right_eq_some.mp hs
    cases seats <;> cases hs <;> exact h.sublist (.refl _) nofun
  | live seatId status =>
    cases hs
    by_cases hstatus : status = .available
    · refine h.sublist ?_ ?_
      · simp [Page.handleLiveUpdate, hstatus]
      · rintro _ _ ⟨⟩ hne
        exact absurd hstatus hne
    · refine h.sublist ?_ ?_
      · simp [Page.handleLiveUpdate, hstatus]
      · rintro _ _ ⟨⟩ - seat hseat
        simp [Page.handleLiveUpdate, hstatus] at hseat
        exact hseat.2
  | click seat =>
    obtain ⟨-, hs⟩ := Option.ite_none_right_eq_some.mp hs
    cases hs
    dsimp only
    unfold Page.toggleSeat
    split_ifs with hstatus hselected hfull
    · exact h.sublist (.refl _) nofun
    · exact h.sublist List.filter_sublist nofun
    · exact h.sublist (.refl _) nofun
    · refine h.click (by simpa using hstatus) ?_ (Nat.lt_of_not_le hfull)
      simpa using hselected
  | reserve user =>
    obtain ⟨-, hs⟩ := Option.ite_none_right_eq_some.mp hs
    cases user <;> cases hs <;> exact h.sublist (.refl _) nofun
  | answer reply =>
    simp only [next] at hs
    split at hs
    · split at hs
      · cases hs
      · cases hs
        split
        · unfold finish
          split
          · exact .nil _
          · exact h.sublist (.refl _) nofun
        · exact h.sublist (.refl _) nofun
    · cases hs

/-- **What is selected.** After any run of the page. -/
theorem selected_of_run {es : List (PickerEvent N)} (hrun : mount.run js place es = some s) :
    Chosen es s.page.selected :=
  Runs.foldlM_history (I := fun past s => Chosen past s.page.selected) hrun (.nil _)
    fun _ _ _ _ hs h => h.step hs

end Selection

/-- The id of the one booking. -/
def five : Id := ⟨5, by decide, by decide⟩

/-- The language, as far as it writes and reads this id. -/
def decimal : Javascript.Builtins Number where
  parse _ := .error .syntaxError
  numberToString
    | .finite x => toString x.num.toNat
    | .nan => "NaN"
    | .infinity negative => if negative then "-Infinity" else "Infinity"
  toNumber text := if text = "5" then .finite 5 else .nan
  isFinite
    | .finite _ => true
    | .nan | .infinity _ => false
  toISOString _ := .error .rangeError
  parse_empty := rfl

theorem decimal_five : Decimal decimal five := ⟨rfl, rfl⟩

/-- Row A. -/
def rowA (seatNumber : ℕ) : Place := ⟨"Main", "A", seatNumber⟩

/-- Two seats are selected and reserved. While the first request is awaited somebody else takes the
second seat. -/
def twoSeats : List (PickerEvent ℕ) :=
  [.mounted (some [⟨1, .available⟩, ⟨2, .available⟩]), .click ⟨1, .available⟩,
    .click ⟨2, .available⟩, .reserve true, .live 1 .held, .live 2 .held, .answer (.told five),
    .answer (.refused "Seat 2 is not available")]

theorem selected_of_run_twoSeats : ∃ s, mount.run decimal rowA (twoSeats.take 5) = some s ∧
    s.page.selected = [⟨2, .available⟩] ∧ Chosen (twoSeats.take 5) s.page.selected := by
  obtain ⟨s, hrun, hselected⟩ : ∃ s, mount.run decimal rowA (twoSeats.take 5) = some s ∧
      s.page.selected = [⟨2, .available⟩] := ⟨_, rfl, rfl⟩
  exact ⟨s, hrun, hselected, selected_of_run hrun⟩

/-! ### What is booked -/

section Answers

variable {N : Type}

/-- What has come of the reservations of a run. -/
def replies (es : List (PickerEvent N)) : List Reply :=
  es.filterMap fun
    | .answer reply => some reply
    | _ => none

/-- The bookings that have been made. -/
def booked (es : List (PickerEvent N)) : List Id := (replies es).filterMap Reply.booked

/-- Those whose answer has been lost. -/
def unknown (es : List (PickerEvent N)) : List Id := (replies es).filterMap Reply.unknown

/-- The answers that the page has had. -/
def answers (es : List (PickerEvent N)) : List (Except String Id) :=
  (replies es).map Reply.result

/-- The bookings among them. -/
def made (results : List (Except String Id)) : List Id := results.filterMap Except.toOption

/-- What is said of the seats that were refused. -/
def refused (place : N → Place) (chosen : List (Seat N)) (results : List (Except String Id)) :
    List String :=
  (chosen.zip results).filterMap fun
    | (seat, .error message) => some (failure place seat message)
    | (_, .ok _) => none

variable {place : N → Place}

@[simp] theorem answers_append (es es' : List (PickerEvent N)) :
    answers (es ++ es') = answers es ++ answers es' := by
  unfold answers replies
  rw [List.filterMap_append, List.map_append]

@[simp] theorem made_append (results results' : List (Except String Id)) :
    made (results ++ results') = made results ++ made results' :=
  List.filterMap_append

/-- The page knows of a booking unless its answer has been lost. -/
theorem mem_booked_iff {es : List (PickerEvent N)} {id : Id} :
    id ∈ booked es ↔ id ∈ made (answers es) ∨ id ∈ unknown es := by
  unfold booked made answers unknown
  simp only [List.mem_filterMap, List.mem_map]
  constructor
  · rintro ⟨reply, hreply, hid⟩
    cases reply with
    | told id' => exact .inl ⟨_, ⟨_, hreply, rfl⟩, hid⟩
    | lost id' message => exact .inr ⟨_, hreply, hid⟩
    | refused message => cases hid
  · rintro (⟨_, ⟨reply, hreply, rfl⟩, hid⟩ | ⟨reply, hreply, hid⟩)
    · cases reply with
      | told id' => exact ⟨_, hreply, hid⟩
      | _ => cases hid
    · cases reply with
      | lost id' message => exact ⟨_, hreply, hid⟩
      | _ => cases hid

/-- One more answer, for the next seat. -/
theorem refused_append {seats seats' : List (Seat N)} {results results' : List (Except String Id)}
    (hlength : seats.length = results.length) :
    refused place (seats ++ seats') (results ++ results') =
      refused place seats results ++ refused place seats' results' := by
  unfold refused
  rw [List.zip_append hlength, List.filterMap_append]

theorem record_eq (b : Batch N) (seat : Seat N) (todo : List (Seat N))
    (result : Except String Id) :
    b.record place seat todo result = { b with
      todo
      bookingIds := b.bookingIds ++ made [result]
      failed := b.failed ++ refused place [seat] [result] } := by
  cases result with
  | ok id => simp [Batch.record, made, refused, Except.toOption]
  | error message => simp [Batch.record, made, refused, Except.toOption]

end Answers

section Booked

variable {N : Type} [DecidableEq N] {js : Javascript.Builtins Number} {place : N → Place}
variable {s s' : Picker N} {past : List (PickerEvent N)} {e : PickerEvent N}

/-- The events `past` end with a loop that was started with the selection `chosen` and has had the
answers `results`. The page was told of no booking before it. -/
def Started (js : Javascript.Builtins Number) (place : N → Place) (past : List (PickerEvent N))
    (chosen : List (Seat N)) (results : List (Except String Id)) : Prop :=
  ∃ es₁ s₁ es₂, past = es₁ ++ .reserve true :: es₂ ∧ mount.run js place es₁ = some s₁ ∧
    s₁.page.selected = chosen ∧ answers es₂ = results ∧ made (answers es₁) = []

namespace Started

variable {chosen : List (Seat N)} {results : List (Except String Id)}

/-- What the page has been told of has been booked by the loop. -/
theorem made_eq (h : Started js place past chosen results) :
    made (answers past) = made results := by
  obtain ⟨es₁, s₁, es₂, rfl, -, -, rfl, hnone⟩ := h
  rw [answers_append, made_append, hnone, List.nil_append]
  rfl

theorem append (h : Started js place past chosen results) (e : PickerEvent N) :
    Started js place (past ++ [e]) chosen (results ++ answers [e]) := by
  obtain ⟨es₁, s₁, es₂, rfl, hrun, hchosen, rfl, hnone⟩ := h
  exact ⟨es₁, s₁, es₂ ++ [e], by simp, hrun, hchosen, answers_append _ _, hnone⟩

end Started

/-- The loop has handled the seats `handled` with the answers `results`. -/
structure Handles (place : N → Place) (b : Batch N) (handled : List (Seat N))
    (results : List (Except String Id)) : Prop where
  chosen : b.chosen = handled ++ b.todo
  length : handled.length = results.length
  bookingIds : b.bookingIds = made results
  failed : b.failed = refused place handled results

omit [DecidableEq N] in
theorem Handles.record {b : Batch N} {handled todo : List (Seat N)} {seat : Seat N}
    {results : List (Except String Id)} (h : Handles place b handled results)
    (htodo : b.todo = seat :: todo) (result : Except String Id) :
    Handles place (b.record place seat todo result) (handled ++ [seat]) (results ++ [result]) := by
  rw [record_eq]
  refine ⟨?_, ?_, ?_, ?_⟩
  · simpa [htodo] using h.chosen
  · simpa using h.length
  · rw [made_append, ← h.bookingIds]
  · rw [refused_append h.length, ← h.failed]

/-- What the page knows to be booked after the events `past`: nothing as long as it is there and no
loop runs; what the loop says; or what the next page has been told. -/
structure Booked (js : Javascript.Builtins Number) (place : N → Place)
    (past : List (PickerEvent N)) (s : Picker N) : Prop where
  idle : s.location = none → s.batch = none → made (answers past) = []
  looping : ∀ b, s.location = none → s.batch = some b → b.todo ≠ [] ∧ ∃ handled results,
    Started js place past b.chosen results ∧ Handles place b handled results
  left : ∀ l, s.location = some l → l = .login ∧ made (answers past) = [] ∨
    ∃ chosen results, Started js place past chosen results ∧ results.length = chosen.length ∧
      made results ≠ [] ∧ l = nextPage js chosen (made results) (refused place chosen results)

namespace Booked

theorem mount : Booked js place [] (mount : Picker N) where
  idle _ _ := rfl
  looping _ _ h := by cases h
  left _ h := by cases h

/-- A step that is not about the loop. -/
theorem keep (h : Booked js place past s) (hlocation : s.location = none)
    (hbatch : s'.batch = s.batch) (hlocation' : s'.location = none) (he : answers [e] = []) :
    Booked js place (past ++ [e]) s' where
  idle _ hnone := by
    rw [answers_append, he, List.append_nil]
    exact h.idle hlocation (hbatch ▸ hnone)
  looping b _ hb := by
    obtain ⟨htodo, handled, results, hstarted, hhandles⟩ := h.looping b hlocation (hbatch ▸ hb)
    refine ⟨htodo, handled, results, ?_, hhandles⟩
    have happend := hstarted.append e
    rwa [he, List.append_nil] at happend
  left l hl := by
    rw [hlocation'] at hl
    cases hl

/-- The loop has had its last answer. -/
theorem finish {b : Batch N} {handled : List (Seat N)} {results : List (Except String Id)}
    (hlocation : s.location = none) (hstarted : Started js place past b.chosen results)
    (htodo : b.todo = []) (h : Handles place b handled results) :
    Booked js place past (s.finish js b) := by
  have hchosen : b.chosen = handled := by
    rw [h.chosen, htodo, List.append_nil]
  unfold Picker.finish
  split
  · rename_i hempty
    refine ⟨fun _ _ => ?_, fun _ _ hb => (by cases hb), fun l hl => ?_⟩
    · rw [hstarted.made_eq, ← h.bookingIds, hempty]
    · rw [hlocation] at hl
      cases hl
  · rename_i hbooked
    refine ⟨fun hl => (by cases hl), fun _ hl => (by cases hl), ?_⟩
    rintro l ⟨⟩
    refine .inr ⟨b.chosen, results, hstarted, ?_, ?_, ?_⟩
    · rw [hchosen, h.length]
    · rwa [← h.bookingIds]
    · rw [h.bookingIds, h.failed, hchosen]

/-- **The step lemma.** -/
theorem step (h : Booked js place past s) (hrun : Picker.mount.run js place past = some s)
    (hs : s.step js place e = some s') : Booked js place (past ++ [e]) s' := by
  obtain ⟨hlocation, hs⟩ := Option.ite_none_right_eq_some.mp hs
  cases e with
  -- the seat map, the messages and the clicks leave the loop alone
  | mounted seats =>
    obtain ⟨-, hs⟩ := Option.ite_none_right_eq_some.mp hs
    cases seats <;> cases hs <;> exact h.keep hlocation rfl hlocation rfl
  | refetched seats =>
    obtain ⟨-, hs⟩ := Option.ite_none_right_eq_some.mp hs
    cases seats <;> cases hs <;> exact h.keep hlocation rfl hlocation rfl
  | live seatId status =>
    cases hs
    exact h.keep hlocation rfl hlocation rfl
  | click seat =>
    obtain ⟨-, hs⟩ := Option.ite_none_right_eq_some.mp hs
    cases hs
    exact h.keep hlocation rfl hlocation rfl
  -- a loop starts with what is selected, or the page goes to the form for the login
  | reserve user =>
    obtain ⟨⟨hselected, hbatch⟩, hs⟩ := Option.ite_none_right_eq_some.mp hs
    have hnone : made (answers past) = [] := h.idle hlocation (by simpa using hbatch)
    cases user with
    | true =>
      cases hs
      refine ⟨fun _ hb => (by cases hb), ?_, fun l hl => ?_⟩
      · rintro b - ⟨⟩
        exact ⟨hselected, [], [], ⟨past, s, [], rfl, hrun, rfl, rfl, hnone⟩, rfl, rfl, rfl, rfl⟩
      · rw [hlocation] at hl
        cases hl
    | false =>
      cases hs
      refine ⟨fun hl => (by cases hl), fun b hl => (by cases hl), ?_⟩
      rintro l ⟨⟩
      refine .inl ⟨rfl, ?_⟩
      rw [answers_append, made_append, hnone]
      rfl
  -- one more seat has been handled, and with the last one the loop ends
  | answer reply =>
    simp only [next] at hs
    split at hs
    · rename_i b hbatch
      obtain ⟨-, handled, results, hstarted, hhandles⟩ := h.looping b hlocation hbatch
      split at hs
      · cases hs
      · rename_i seat todo htodo
        have hstarted' : Started js place (past ++ [.answer reply]) b.chosen
          (results ++ [reply.result]) := hstarted.append (.answer reply)
        have hhandles' := hhandles.record htodo reply.result
        have htodo' : (b.record place seat todo reply.result).todo = todo := by rw [record_eq]
        have hchosen' : (b.record place seat todo reply.result).chosen = b.chosen := by
          rw [record_eq]
        rw [← hchosen'] at hstarted'
        generalize b.record place seat todo reply.result = b' at hs hstarted' hhandles' htodo'
        cases hs
        split
        · rename_i hlast
          exact .finish hlocation hstarted' (htodo'.trans hlast) hhandles'
        · refine ⟨fun _ hb => (by cases hb), ?_, fun l hl => ?_⟩
          · rintro _ - ⟨⟩
            refine ⟨?_, _, _, hstarted', hhandles'⟩
            rwa [htodo']
          · rw [hlocation] at hl
            cases hl
    · cases hs

theorem of_run {es : List (PickerEvent N)} (hrun : Picker.mount.run js place es = some s) :
    Booked js place es s := by
  have h := Runs.foldlM_history (I := fun past s =>
    Picker.mount.run js place past = some s ∧ Booked js place past s) hrun ⟨rfl, .mount⟩ ?_
  · exact h.2
  · rintro past s s' e hs ⟨hrun, ih⟩
    refine ⟨?_, ih.step hrun hs⟩
    unfold Picker.run at hrun ⊢
    rw [List.foldlM_append, hrun]
    simpa using hs

end Booked

omit [DecidableEq N] in
/-- The next page asks for the bookings it is told. -/
theorem asked_nextPage (chosen : List (Seat N)) {ids : List Id}
    (hdecimal : ∀ id ∈ ids, Decimal js id) (hne : ids ≠ []) (failed : List String) :
    (nextPage js chosen ids failed).asked js = ids.map fun id => Number.finite id.val := by
  unfold nextPage
  split
  · exact multiCheckoutIds_joinIds hdecimal hne
  · split
    · rename_i id
      have hid := hdecimal id List.mem_cons_self
      show [js.toNumber (idText js id)] = _
      rw [hid.written, hid.read]
      rfl
    · exact multiCheckoutIds_joinIds hdecimal hne

/-- **No booking is lost between the pages.** As long as the page is there and no loop runs, every
booking that has been made is one whose answer has been lost. When it navigates, the next page asks
for exactly the bookings that the page has been told of, in their order, and these are all that have
been made but for those whose answer has been lost. Unless that is the form for the login, the loop
has had an answer for each seat that was selected when the button was clicked, and these answers
alone decide where it navigates and with which warning, whatever came in between. -/
theorem reserved_of_run {es : List (PickerEvent N)} (hrun : mount.run js place es = some s)
    (hdecimal : ∀ id ∈ made (answers es), Decimal js id) :
    (s.location = none → s.batch = none → ∀ id ∈ booked es, id ∈ unknown es) ∧
      ∀ l, s.location = some l →
        l.asked js = (made (answers es)).map (fun id => Number.finite id.val) ∧
        (∀ id ∈ booked es, Number.finite id.val ∈ l.asked js ∨ id ∈ unknown es) ∧
        (l = .login ∨ ∃ es₁ s₁ es₂, es = es₁ ++ .reserve true :: es₂ ∧
          mount.run js place es₁ = some s₁ ∧ (answers es₂).length = s₁.page.selected.length ∧
          l = nextPage js s₁.page.selected (made (answers es₂))
            (refused place s₁.page.selected (answers es₂))) := by
  have h := Booked.of_run hrun
  refine ⟨fun hlocation hbatch id hid => ?_, fun l hl => ?_⟩
  · have hnone := h.idle hlocation hbatch
    refine (mem_booked_iff.mp hid).resolve_left ?_
    rw [hnone]
    exact List.not_mem_nil
  · have hasked : l.asked js = (made (answers es)).map fun id => Number.finite id.val := by
      obtain ⟨rfl, hnone⟩ | ⟨chosen, results, hstarted, -, hne, rfl⟩ := h.left l hl
      · rw [hnone]
        rfl
      · rw [hstarted.made_eq] at hdecimal ⊢
        exact asked_nextPage _ hdecimal hne _
    refine ⟨hasked, fun id hid => ?_, ?_⟩
    · rw [hasked]
      exact (mem_booked_iff.mp hid).imp_left fun hmade => List.mem_map.mpr ⟨id, hmade, rfl⟩
    · obtain ⟨rfl, -⟩ | ⟨chosen, results, hstarted, hlength, -, rfl⟩ := h.left l hl
      · exact .inl rfl
      · obtain ⟨es₁, s₁, es₂, rfl, hrun₁, rfl, rfl, -⟩ := hstarted
        exact .inr ⟨es₁, s₁, es₂, rfl, hrun₁, hlength, rfl⟩

/-- The id of another booking. -/
def six : Id := ⟨6, by decide, by decide⟩

/-- Two seats are selected and reserved. The second booking is made and its answer is lost. -/
def oneLost : List (PickerEvent ℕ) :=
  twoSeats.take 7 ++ [.answer (.lost six "Something went wrong")]

theorem reserved_of_run_oneLost : ∃ s l, mount.run decimal rowA oneLost = some s ∧
    s.location = some l ∧
      (s.location = none → s.batch = none → ∀ id ∈ booked oneLost, id ∈ unknown oneLost) ∧
      ∀ l, s.location = some l →
        l.asked decimal = (made (answers oneLost)).map (fun id => Number.finite id.val) ∧
        (∀ id ∈ booked oneLost, Number.finite id.val ∈ l.asked decimal ∨ id ∈ unknown oneLost) ∧
        (l = .login ∨ ∃ es₁ s₁ es₂, oneLost = es₁ ++ .reserve true :: es₂ ∧
          mount.run decimal rowA es₁ = some s₁ ∧
          (answers es₂).length = s₁.page.selected.length ∧
          l = nextPage decimal s₁.page.selected (made (answers es₂))
            (refused rowA s₁.page.selected (answers es₂))) := by
  obtain ⟨s, l, hrun, hl⟩ : ∃ s l, mount.run decimal rowA oneLost = some s ∧
      s.location = some l := ⟨_, _, rfl, rfl⟩
  refine ⟨s, l, hrun, hl, reserved_of_run hrun fun id hid => ?_⟩
  rw [show id = five from List.mem_singleton.mp hid]
  exact decimal_five

end Booked

end Picker

end ScalableBooking.SeatPicker
