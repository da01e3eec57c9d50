import ScalableBooking.Auth.Register
import ScalableBooking.LbProxy.Dispatch
import ScalableBooking.Lib.JsonWrite

/-!
# The answers that a page gets

Every request of the pages goes through `request` of `api.ts`. It reads the text of the answer, and
makes an `ApiError` of one that is not `ok`, with a message and a code of its own where the answer
has none.

The backend answers with an object, the one that a handler sends or the one of `errorHandler`, and
the proxy passes it on. When no backend answers, the proxy does, with a plain text, and this is no
JSON. So a page is told apart what has come from where, in every run of the proxy
(`arrives_of_run`). Only the backend answers with the headers of `cors`: a page of another origin
does not see the texts of the proxy, and its `fetch` rejects.

`JSON.parse` is a parameter. It reads what `JsonText.parse` reads, and may read more where a text
has an escape, for a string can be half a surrogate pair there.
-/

namespace ScalableBooking.Frontend

open JsonText (Json)

/-! ### On the wire -/

/-- A response that `fetch` resolves with. -/
structure Response where
  status : ℕ
  text : List Char

namespace Response

/-- `res.ok` -/
def ok (status : ℕ) : Bool := 200 ≤ status && status ≤ 299

/-- `reply.status(status).send(body)` -/
def json (status : ℕ) (body : Json) : Response := ⟨status, body.stringify⟩

end Response

/-- A string of the program. -/
def str (s : String) : Json := .str s.toList

/-- An object with these members. -/
def object (members : List (String × Json)) : Json :=
  .object (members.map fun m => (m.1.toList, m.2))

/-- The object that `errorHandler` sends. -/
def failureBody (reply : Auth.Reply) : Json :=
  object [("success", .bool false), ("code", str reply.code), ("message", str reply.message)]

/-- What a handler sends, each value as `JSON.stringify` takes it: a `Date` is its text. -/
def successBody (members : List (String × Json)) : Json :=
  object (("success", .bool true) :: members)

/-- The answers of the proxy itself. Its `text_response` has a status and a text. -/
inductive ProxyError where
  | noBackends
  | backendDisappeared
  | invalidTarget
  | notBuilt
  | upstreamFailed
deriving DecidableEq, Repr

namespace ProxyError

def status : ProxyError → ℕ
  | noBackends | backendDisappeared => 503
  | invalidTarget | notBuilt | upstreamFailed => 502

def message : ProxyError → String
  | noBackends => "no backends configured"
  | backendDisappeared => "backend disappeared"
  | invalidTarget => "invalid upstream target"
  | notBuilt => "failed to build request"
  | upstreamFailed => "upstream request failed"

end ProxyError

/-- What the pages use of the language: `JSON.parse`, where it returns; `String(value)`; and whether
a number is another one than zero. -/
structure Builtins where
  parse : List Char → Option Json
  text : Json → List Char
  nonzero : List Char → Bool
  parse_some : ∀ text v, JsonText.parse text = some v → parse text = some v
  parse_none : ∀ text, '\\' ∉ text → JsonText.parse text = none → parse text = none
  text_str : ∀ s, text (.str s) = s

/-- A request that is not answered by a handler: an error has been thrown, and is not answered as a
success; or the answer is no JSON, because the proxy or another hop has made it or the body is cut
off; or there is none, or none that the page may read. -/
inductive Failure (js : Builtins) where
  | thrown (err : Auth.Thrown) (h : Response.ok (Auth.errorHandler err).status = false)
  | noJson (res : Response) (h : js.parse res.text = none)
  | lost

variable {js : Builtins}

/-- What `reply` sends for an error. -/
def thrownResponse (err : Auth.Thrown) : Response :=
  let reply := Auth.errorHandler err
  .json reply.status (failureBody reply)

/-- What `fetch` resolves with, if it does. -/
def Failure.response : Failure js → Option Response
  | thrown err _ => some (thrownResponse err)
  | noJson res _ => some res
  | lost => none

/-! ### `request` -/

/-- A property of a value. Of two members with one name the later one counts. -/
def get (name : String) : Json → Option Json
  | .object members => members.reverse.lookup name.toList
  | _ => none

/-- `value ?? default` -/
def orElse (value : Option Json) (default : String) : Json :=
  match value with
  | none | some .null => str default
  | some value => value

structure ApiError where
  message : List Char
  code : Json
  status : ℕ

namespace ApiError

/-- The error for an answer of `errorHandler`. -/
def ofReply (reply : Auth.Reply) : ApiError := ⟨reply.message.toList, str reply.code, reply.status⟩

/-- The error for an answer that has neither a message nor a code. -/
def fallback (status : ℕ) : ApiError :=
  ⟨"Something went wrong".toList, str "UNKNOWN_ERROR", status⟩

end ApiError

/-- How the promise of `request` ends. `fetch` rejects with an error of its own. -/
inductive Outcome where
  | resolved (body : Json)
  | apiError (err : ApiError)
  | rejected

/-- `request` -/
def request (js : Builtins) (res : Option Response) : Outcome :=
  match res with
  | none => .rejected
  | some res =>
      let body := (js.parse res.text).getD .null
      if Response.ok res.status then .resolved body
      else .apiError {
        message := js.text (orElse (get "message" body) "Something went wrong")
        code := orElse (get "code" body) "UNKNOWN_ERROR"
        status := res.status }

/-! ### Bodies are read as they were written -/

theorem membersValid_map {members : List (String × Json)} (h : ∀ m ∈ members, m.2.Valid) :
    JsonText.MembersValid (members.map fun m => (m.1.toList, m.2)) := by
  induction members with
  | nil => trivial
  | cons m members ih =>
    exact ⟨h m List.mem_cons_self, ih fun m' hm => h m' (List.mem_cons_of_mem m hm)⟩

theorem parse_object (js : Builtins) {members : List (String × Json)}
    (h : ∀ m ∈ members, m.2.Valid) :
    js.parse (object members).stringify = some (object members) :=
  js.parse_some _ _ (JsonText.parse_stringify (membersValid_map h))

theorem parse_failureBody (js : Builtins) (reply : Auth.Reply) :
    js.parse (failureBody reply).stringify = some (failureBody reply) := by
  refine parse_object js ?_
  simp [str, Json.Valid]

/-- What the proxy answers is no JSON. -/
theorem parse_message (js : Builtins) (e : ProxyError) : js.parse e.message.toList = none := by
  refine js.parse_none _ ?_ ?_
  · cases e <;> decide
  · cases e <;> rfl

/-- What a handler sends arrives. -/
theorem request_success (js : Builtins) {status : ℕ} (hstatus : Response.ok status = true)
    {members : List (String × Json)} (h : ∀ m ∈ members, m.2.Valid) :
    request js (some (.json status (successBody members))) = .resolved (successBody members) := by
  have hparse : js.parse (successBody members).stringify = some (successBody members) := by
    refine parse_object js ?_
    rintro m (_ | ⟨_, hm⟩)
    · trivial
    · exact h m hm
  simp only [request, Response.json, hparse, hstatus, if_pos, Option.getD_some]

/-- What `errorHandler` sends is told as what it is. -/
theorem request_thrown (js : Builtins) {err : Auth.Thrown}
    (h : Response.ok (Auth.errorHandler err).status = false) :
    request js (some (thrownResponse err)) = .apiError (.ofReply (Auth.errorHandler err)) := by
  have hmessage : get "message" (failureBody (Auth.errorHandler err)) =
      some (str (Auth.errorHandler err).message) := by
    simp [get, failureBody, object]
  have hcode : get "code" (failureBody (Auth.errorHandler err)) =
      some (str (Auth.errorHandler err).code) := by
    simp [get, failureBody, object, List.lookup_cons]
  simp only [request, thrownResponse, Response.json, parse_failureBody, h, hmessage, hcode, orElse,
    str, js.text_str, ApiError.ofReply, Option.getD_some, Bool.false_eq_true, if_false]

/-- An answer that is no JSON has no object, and neither message nor code. -/
theorem request_noJson (js : Builtins) {res : Response} (h : js.parse res.text = none) :
    request js (some res) =
      if Response.ok res.status then .resolved .null else .apiError (.fallback res.status) := by
  have hbody : (js.parse res.text).getD .null = .null := by rw [h, Option.getD_none]
  have hmessage : js.text (orElse (get "message" .null) "Something went wrong") =
      "Something went wrong".toList := js.text_str _
  simp only [request, hbody, hmessage]
  rfl

/-- What a backend answers a request with. -/
inductive BackendAnswer where
  | sent (status : ℕ) (members : List (String × Json)) (hstatus : Response.ok status = true)
      (hmembers : ∀ m ∈ members, m.2.Valid)
  | thrown (err : Auth.Thrown) (h : Response.ok (Auth.errorHandler err).status = false)

namespace BackendAnswer

def response : BackendAnswer → Response
  | sent status members _ _ => .json status (successBody members)
  | thrown err _ => thrownResponse err

/-- What a page is told of it. -/
def outcome : BackendAnswer → Outcome
  | sent _ members _ _ => .resolved (successBody members)
  | thrown err _ => .apiError (.ofReply (Auth.errorHandler err))

theorem request_response (js : Builtins) (answer : BackendAnswer) :
    request js (some answer.response) = answer.outcome := by
  cases answer with
  | sent status members hstatus hmembers => exact request_success js hstatus hmembers
  | thrown err h => exact request_thrown js h

end BackendAnswer

/-! ### Where an answer comes from -/

open LbProxy (Phase State)

/-- Where the answer of request `i` comes from: the proxy answers with one of the five texts, or the
backend has answered with the status that is passed on. -/
def Explained (past : List LbProxy.Event) (i : ℕ) : Phase → Prop
  | .answered (.text status message) =>
      ∃ e : ProxyError, status = e.status ∧ message = e.message
  | .streaming _ status _ | .closed status =>
      ∃ latency now, .respond i (.ok status) latency now ∈ past
  | _ => True

section Steps

variable {st st' : State} {past : List LbProxy.Event} {e : LbProxy.Event} {i : ℕ} {phase : Phase}

theorem ProxyError.explained (e : ProxyError) :
    Explained past i (.answered (.text e.status e.message)) :=
  ⟨e, rfl, rfl⟩

theorem Explained.append (h : Explained past i phase) : Explained (past ++ [e]) i phase := by
  have hpast : ∀ status, (∃ latency now, .respond i (.ok status) latency now ∈ past) →
      ∃ latency now, .respond i (.ok status) latency now ∈ past ++ [e] := by
    rintro status ⟨latency, now, hmem⟩
    exact ⟨latency, now, List.mem_append_left _ hmem⟩
  cases phase with
  | answered reply => cases reply <;> exact h
  | streaming sid status body => exact hpast status h
  | closed status => exact hpast status h
  | _ => trivial

section Change

variable {proxy : LbProxy.ProxyState} {new : Phase}
variable (h : ∀ i phase, st.requests[i]? = some phase → Explained past i phase)

include h

theorem explained_push (hnew : ∀ i, Explained (past ++ [e]) i new) :
    ∀ i phase, (st.push new proxy).requests[i]? = some phase → Explained (past ++ [e]) i phase := by
  intro i phase hi
  rw [State.push, List.getElem?_append] at hi
  split at hi
  · exact (h i phase hi).append
  · rw [List.mem_singleton.mp (List.mem_of_getElem? hi)]
    exact hnew i

theorem explained_move (hnew : Explained (past ++ [e]) i new) :
    ∀ j phase, (st.move i new proxy).requests[j]? = some phase →
      Explained (past ++ [e]) j phase := by
  intro j phase hj
  by_cases hij : i = j
  · subst hij
    have hmem : phase = new := by
      rw [State.move, List.getElem?_set] at hj
      split at hj <;> simp_all
    rwa [hmem]
  · rw [State.move, List.getElem?_set_ne hij] at hj
    exact (h j phase hj).append

end Change

/-- **The step lemma.** -/
theorem explained_step (hs : st.step e = some st')
    (h : ∀ i phase, st.requests[i]? = some phase → Explained past i phase) :
    ∀ i phase, st'.requests[i]? = some phase → Explained (past ++ [e]) i phase := by
  cases e with
  -- the probes, the two texts of the routing, or a dispatch
  | arrive req clock now =>
    obtain rfl := Option.some.inj hs
    unfold State.arrive
    split
    · exact explained_push h fun _ => trivial
    split
    · exact explained_push h fun _ => trivial
    dsimp only
    split
    · exact explained_push h fun _ => ProxyError.noBackends.explained
    · split
      · exact explained_push h fun _ => ProxyError.backendDisappeared.explained
      · exact explained_push h fun _ => trivial
  | build i outcome =>
    obtain ⟨sid, -, rfl⟩ := State.step_build hs
    cases outcome with
    | badTarget => exact explained_move h ProxyError.invalidTarget.explained
    | buildFailed => exact explained_move h ProxyError.notBuilt.explained
    | built => exact explained_move h trivial
  | respond i upstream latency now =>
    obtain ⟨sid, -, rfl⟩ := State.step_respond hs
    cases upstream with
    | ok status => exact explained_move h ⟨latency, now, by simp⟩
    | error => exact explained_move h ProxyError.upstreamFailed.explained
  | clientGone i =>
    obtain ⟨sid, -, rfl⟩ := State.step_clientGone hs
    exact explained_move h trivial
  -- the status of a body does not change
  | pollBody i poll =>
    obtain ⟨sid, status, body, hi, rfl⟩ := State.step_pollBody hs
    exact explained_move h (h i _ hi).append
  | dropBody i =>
    obtain ⟨sid, status, body, hi, rfl⟩ := State.step_dropBody hs
    exact explained_move h (h i _ hi).append
  | syncScoreboard clock now =>
    obtain ⟨proxy, -, rfl⟩ := State.step_syncScoreboard hs
    exact fun i phase hi => (h i phase hi).append

end Steps

variable {cfg : LbProxy.Config} {created : ℕ → RouterCore.Instant} {seed : BitVec 64}
variable {events : List LbProxy.Event} {st : State}

theorem explained_of_run (hrun : (State.init cfg created seed).run events = some st) :
    ∀ i phase, st.requests[i]? = some phase → Explained events i phase :=
  Runs.foldlM_history
    (I := fun past st => ∀ i phase, st.requests[i]? = some phase → Explained past i phase) hrun
    nofun fun _ _ _ _ hs h => explained_step hs h

/-- Whose origin a page has: the one of the API, one of `CORS_ORIGINS`, or another one. -/
inductive Origin where
  | same
  | listed
  | other
deriving DecidableEq, Repr

namespace Origin

/-- An answer of the backend has the headers of `cors`, and can be read. -/
def readsBackend : Origin → Bool
  | same | listed => true
  | other => false

/-- A `text_response` has none of them. -/
def readsProxy : Origin → Bool
  | same => true
  | listed | other => false

end Origin

/-- What `fetch` of a request ends with, when the backend answers it with `res` and the body arrives
whole: nothing before there is an answer, and `some none` where the page may not read it. -/
def received (origin : Origin) (res : Response) : Phase → Option (Option Response)
  | .answered (.text status message) =>
      some (if origin.readsProxy then some ⟨status, message.toList⟩ else none)
  | .streaming _ status _ | .closed status =>
      some (if origin.readsBackend then some ⟨status, res.text⟩ else none)
  | _ => none

/-- What the page is told then. -/
def told (origin : Origin) (answer : BackendAnswer) : Phase → Outcome
  | .answered (.text status _) =>
      if origin.readsProxy then .apiError (.fallback status) else .rejected
  | .streaming _ _ _ | .closed _ => if origin.readsBackend then answer.outcome else .rejected
  | _ => .rejected

/-- **What a page is told.** In every run of the proxy in which backends answer the requests: a text
of the proxy is told as an error without a code of the backend, with its status; an error that the
backend has thrown is told with its message, code and status; and what a handler has sent is
resolved, if it arrives whole. What the origin of the page does not let it read is told as nothing
but a rejection. -/
theorem arrives_of_run (js : Builtins) (origin : Origin) (answers : ℕ → BackendAnswer)
    (hrun : (State.init cfg created seed).run events = some st)
    (hanswers : ∀ i status latency now, .respond i (.ok status) latency now ∈ events →
      status = (answers i).response.status) :
    ∀ i phase res, st.requests[i]? = some phase →
      received origin (answers i).response phase = some res →
        request js res = told origin (answers i) phase := by
  intro i phase res hi hres
  have hexplained := explained_of_run hrun i phase hi
  have hpassed : ∀ status, (∃ latency now, .respond i (.ok status) latency now ∈ events) →
      request js (if origin.readsBackend then some ⟨status, (answers i).response.text⟩ else none) =
        if origin.readsBackend then (answers i).outcome else .rejected := by
    rintro status ⟨latency, now, hmem⟩
    rw [hanswers i status latency now hmem]
    split
    · exact (answers i).request_response js
    · rfl
  cases phase with
  | answered reply =>
    cases reply with
    | text status message =>
      obtain ⟨e, rfl, rfl⟩ := hexplained
      obtain rfl := Option.some.inj hres
      have hstatus : Response.ok e.status = false := by cases e <;> rfl
      rw [told]
      split
      · rw [request_noJson js (parse_message js e), hstatus]
        rfl
      · rfl
    | _ => cases hres
  | streaming sid status body =>
    obtain rfl := Option.some.inj hres
    exact hpassed status hexplained
  | closed status =>
    obtain rfl := Option.some.inj hres
    exact hpassed status hexplained
  | _ => cases hres

/-- Texts of strings and of the values that are written as they are. -/
def plainBuiltins : Builtins where
  parse := JsonText.parse
  text
    | .str s => s
    | v => v.stringify
  nonzero text := text.any fun c => c.isDigit && c != '0'
  parse_some _ _ := id
  parse_none _ _ := id
  text_str _ := rfl

/-- A handler sends the id of a booking. -/
def sentBooking : BackendAnswer :=
  .sent 200 [("bookingId", .ofNat 5)] rfl fun _ h => by
    rw [List.mem_singleton.mp h]
    exact JsonText.Json.valid_ofNat 5

/-- The first request is answered by the backend and the third one by the proxy. A page of another
origin is told the one and not the other. -/
theorem arrives_of_run_threePings : ∃ st,
    (State.init LbProxy.oneBackend (fun i => i) 1).run LbProxy.threePings = some st ∧
      request plainBuiltins (some ⟨200, sentBooking.response.text⟩) = sentBooking.outcome ∧
      request plainBuiltins (some ⟨502, "invalid upstream target".toList⟩) =
        .apiError (.fallback 502) ∧
      told .listed sentBooking (.closed 200) = sentBooking.outcome ∧
      told .listed sentBooking (.answered (.text 502 "invalid upstream target")) = .rejected := by
  obtain ⟨st, hrun, -, hrequests, -⟩ := LbProxy.run_threePings
  have harrives (origin : Origin) :=
    arrives_of_run plainBuiltins origin (fun _ => sentBooking) hrun <| by
      intro i status latency now hmem
      simp [LbProxy.threePings, LbProxy.ping] at hmem
      rw [hmem.2.1]
      rfl
  rw [hrequests] at harrives
  exact ⟨st, hrun, harrives .same 0 _ _ rfl rfl, harrives .same 2 _ _ rfl rfl,
    (harrives .listed 0 _ _ rfl rfl).symm.trans (harrives .same 0 _ _ rfl rfl),
    (harrives .listed 2 _ none rfl rfl).symm⟩

end ScalableBooking.Frontend
