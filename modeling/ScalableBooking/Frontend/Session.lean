import ScalableBooking.Auth.Login
import ScalableBooking.Frontend.Request
import ScalableBooking.Lib.Runs

/-!
# Who is logged in

`AuthProvider` keeps the user and the token that a login or a registration is answered with: in its
state, in the variable that `request` makes the header from, and as text in the storage, which all
tabs of a browser share. A tab that is opened, or loaded again, takes over what is stored there once
it is mounted. It does not look again later, so it goes on as it is when another tab logs in or out.

`Accounts` says the same without any text: which account is stored, and which one each tab has
seen. The runs of the browser are those of its accounts (`run_ofAccounts`), though they go through
JSON and back, on the wire and in the storage. So what the backend reads out of a header is the
account that the tab has seen (`authorized_of_run`).

A request can be sent at any time, also by a page that is no longer shown: `handleConfirmAll` of
`MultiCheckoutPage` calls `getBooking` after an answer has come, when the user may have logged out.
The storage takes every text that it is given.
-/

namespace ScalableBooking.Frontend

open JsonText (Json)
open Auth (Jwt Registered requireAuth unauthorized)

/-! ### Accounts -/

/-- What `registerUser` and `loginUser` return. A token is no empty text. -/
structure Account extends Registered where
  token_ne : token ≠ ""

/-- The form has two modes. -/
inductive Mode where
  | login
  | register
deriving DecidableEq, Repr

def Mode.status : Mode → ℕ
  | login => 200
  | register => 201

namespace Account

/-- The type `User` of the pages. -/
def user (account : Account) : Json :=
  object [("id", .ofNat account.id), ("email", str account.email)]

/-- The members that the handlers send, and those that are stored. -/
def members (account : Account) : List (String × Json) :=
  [("user", account.user), ("token", str account.token)]

/-- The header of a request. -/
def header (account : Account) : String := "Bearer " ++ account.token

end Account

/-- `loginHandler` and `registerHandler`. -/
def answer (js : Builtins) (mode : Mode) : Except (Failure js) Account → Option Response
  | .ok account => some (.json mode.status (successBody account.members))
  | .error failure => failure.response

/-! ### The browser -/

/-- The value is no `null`, `false`, empty text or zero. -/
def truthy (js : Builtins) : Json → Bool
  | .null => false
  | .bool b => b
  | .number text => js.nonzero text
  | .str s => !s.isEmpty
  | .array _ | .object _ => true

/-- The state of `AuthProvider`, and the variable `authToken` of `api.ts`. -/
structure Tab where
  user : Option Json
  token : Option Json
  ready : Bool
  authToken : Option Json

namespace Tab

/-- A tab that has just been loaded. -/
def opened : Tab := ⟨none, none, false, none⟩

/-- What a login and the storage put into a tab. -/
def signIn (t : Tab) (user token : Option Json) : Tab :=
  { t with user, token, authToken := token }

/-- The effect of `AuthProvider`, with what it reads in the storage. -/
def mount (js : Builtins) (stored : Json) (t : Tab) : Tab :=
  if truthy js stored then { t with ready := true }.signIn (get "user" stored) (get "token" stored)
  else { t with ready := true }

/-- `ProtectedRoute` shows its page. -/
def shows (js : Builtins) (t : Tab) : Bool := t.ready && t.user.any (truthy js)

end Tab

/-- `loadStored` -/
def loadStored (js : Builtins) (storage : Option (List Char)) : Json :=
  match storage with
  | none | some [] => .null
  | some raw => (js.parse raw).getD .null

/-- What `persist` stores. A member that is not there is left out. -/
def storedText (user token : Option Json) : List Char :=
  (object ((user.map fun v => ("user", v)).toList ++
    (token.map fun v => ("token", v)).toList)).stringify

/-- The header `Authorization` of a request, if it has one. -/
def authorization (js : Builtins) (authToken : Option Json) : Option String :=
  (authToken.filter (truthy js)).map fun token => "Bearer " ++ String.ofList (js.text token)

/-- A request that has been sent. -/
structure Sent (P : Type) where
  tab : P
  authorization : Option String

/-- The tabs of a browser, with what they have sent. -/
structure Browser (P : Type) where
  storage : Option (List Char)
  tab : P → Tab
  log : List (Sent P)

/-- A tab is loaded, or the effect of its `AuthProvider` runs. The form is answered, the user logs
out, or a page sends a request. -/
inductive Event (js : Builtins) (P : Type) where
  | opened (p : P)
  | mounted (p : P)
  | answered (p : P) (mode : Mode) (result : Except (Failure js) Account)
  | logout (p : P)
  | request (p : P)

variable {js : Builtins} {P : Type} [DecidableEq P]

namespace Browser

omit [DecidableEq P] in
/-- Nothing is stored, and no tab is there yet. -/
def start : Browser P := ⟨none, fun _ => .opened, []⟩

/-- `persist` -/
def persist (b : Browser P) (p : P) (user token : Option Json) : Browser P where
  storage := some (storedText user token)
  tab := Function.update b.tab p ((b.tab p).signIn user token)
  log := b.log

/-- `login` and `register`, once the request has ended. -/
def signIn (b : Browser P) (p : P) : Outcome → Browser P
  -- `result.user` of `null` throws
  | .resolved .null | .apiError _ | .rejected => b
  | .resolved body => b.persist p (get "user" body) (get "token" body)

/-- `logout` -/
def logout (b : Browser P) (p : P) : Browser P where
  storage := none
  tab := Function.update b.tab p ((b.tab p).signIn none none)
  log := b.log

/-- A request with the header that it has. -/
def send (js : Builtins) (b : Browser P) (p : P) : Browser P :=
  { b with log := b.log ++ [⟨p, authorization js (b.tab p).authToken⟩] }

/-- One step. A tab that is not `ready` shows no form and no button to log out. -/
def step (js : Builtins) (b : Browser P) : Event js P → Option (Browser P)
  | .opened p => some { b with tab := Function.update b.tab p .opened }
  | .mounted p => if (b.tab p).ready then none else some { b with
      tab := Function.update b.tab p ((b.tab p).mount js (loadStored js b.storage)) }
  | .answered p mode result =>
      if (b.tab p).ready then some (b.signIn p (Frontend.request js (answer js mode result)))
      else none
  | .logout p => if (b.tab p).ready then some (b.logout p) else none
  | .request p => some (b.send js p)

def run (js : Builtins) (events : List (Event js P)) : Option (Browser P) :=
  events.foldlM (step js) start

end Browser

/-! ### What the accounts do -/

/-- The account that is stored, the tabs that are ready and the accounts they have seen, and the
accounts of the requests. -/
structure Accounts (P : Type) where
  stored : Option Account
  ready : P → Bool
  seen : P → Option Account
  log : List (P × Option Account)

namespace Accounts

omit [DecidableEq P] in
def start : Accounts P := ⟨none, fun _ => false, fun _ => none, []⟩

def step (a : Accounts P) : Event js P → Option (Accounts P)
  | .opened p => some { a with
      ready := Function.update a.ready p false
      seen := Function.update a.seen p none }
  | .mounted p =>
      if a.ready p then none
      else some { a with
        ready := Function.update a.ready p true
        seen := Function.update a.seen p a.stored }
  | .answered p _ result =>
      if a.ready p then
        match result with
        | .ok account => some { a with
            stored := some account
            seen := Function.update a.seen p (some account) }
        | .error _ => some a
      else none
  | .logout p =>
      if a.ready p then some { a with stored := none, seen := Function.update a.seen p none }
      else none
  | .request p => some { a with log := a.log ++ [(p, a.seen p)] }

def run (events : List (Event js P)) : Option (Accounts P) := events.foldlM step start

/-- A tab that is not ready has seen none. -/
def Sound (a : Accounts P) : Prop := ∀ p, a.ready p = false → a.seen p = none

end Accounts

/-- What a tab looks like. -/
def Tab.ofAccount (ready : Bool) (account : Option Account) : Tab where
  user := account.map Account.user
  token := account.map fun account => str account.token
  ready
  authToken := account.map fun account => str account.token

/-- What a browser looks like. -/
def Browser.ofAccounts (a : Accounts P) : Browser P where
  storage := a.stored.map fun account => (object account.members).stringify
  tab p := .ofAccount (a.ready p) (a.seen p)
  log := a.log.map fun entry => ⟨entry.1, entry.2.map Account.header⟩

/-! ### Text and back -/

namespace Account

variable (account : Account)

theorem valid_user : account.user.Valid := by
  refine membersValid_map ?_
  simp [JsonText.Json.valid_ofNat, str, Json.Valid]

theorem valid_of_mem {m : String × Json} (h : m ∈ account.members) : m.2.Valid := by
  obtain rfl | h := List.mem_cons.mp h
  · exact account.valid_user
  · obtain rfl := List.mem_singleton.mp h
    trivial

/-- The answer of the backend is resolved with its object. -/
theorem request_answer (js : Builtins) (mode : Mode) :
    request js (answer js mode (.ok account)) = .resolved (successBody account.members) :=
  request_success js (by cases mode <;> rfl) fun _ => account.valid_of_mem

/-- What is stored of an account is read back. -/
theorem loadStored_members (js : Builtins) :
    loadStored js (some (object account.members).stringify) = object account.members := by
  have hparse := parse_object js fun _ => account.valid_of_mem
  have hne : (object account.members).stringify ≠ [] := nofun
  unfold loadStored
  split
  · contradiction
  · rename_i heq
    exact absurd (Option.some.inj heq) hne
  · rename_i heq
    rw [← Option.some.inj heq, hparse, Option.getD_some]

theorem get_user (rest : List (String × Json)) :
    get "user" (object (rest ++ account.members)) = some account.user := by
  simp [get, object, members, List.lookup_cons]

theorem get_token (rest : List (String × Json)) :
    get "token" (object (rest ++ account.members)) = some (str account.token) := by
  simp [get, object, members]

theorem truthy_token (js : Builtins) : truthy js (str account.token) = true := by
  simpa [truthy, str] using account.token_ne

theorem authorization_token (js : Builtins) :
    authorization js (some (str account.token)) = some account.header := by
  rw [authorization, Option.filter_some, account.truthy_token, if_pos rfl, Option.map_some, str,
    js.text_str, String.ofList_toList]
  rfl

end Account

/-! ### Steps -/

theorem authorization_ofAccount (js : Builtins) (ready : Bool) (account : Option Account) :
    authorization js (Tab.ofAccount ready account).authToken = account.map Account.header := by
  cases account with
  | none => rfl
  | some account => exact account.authorization_token js

/-- A tab that looks like an account has seen it. -/
theorem update_ofAccount (ready : P → Bool) (seen : P → Option Account) (p : P) (r : Bool)
    (account : Option Account) :
    Function.update (fun q => Tab.ofAccount (ready q) (seen q)) p (.ofAccount r account) =
      fun q => Tab.ofAccount (Function.update ready p r q) (Function.update seen p account q) := by
  funext q
  obtain rfl | hq := eq_or_ne q p
  · rw [Function.update_self, Function.update_self, Function.update_self]
  · rw [Function.update_of_ne hq, Function.update_of_ne hq, Function.update_of_ne hq]

theorem update_seen (ready : P → Bool) (seen : P → Option Account) (p : P)
    (account : Option Account) :
    Function.update (fun q => Tab.ofAccount (ready q) (seen q)) p (.ofAccount (ready p) account) =
      fun q => Tab.ofAccount (ready q) (Function.update seen p account q) := by
  rw [update_ofAccount, Function.update_eq_self]

section Steps

variable {a : Accounts P}

/-- What the effect makes of the storage. -/
theorem Tab.mount_ofAccount (js : Builtins) (ready : Bool) (stored : Option Account) :
    (Tab.ofAccount ready none).mount js
        (loadStored js (stored.map fun account => (object account.members).stringify)) =
      .ofAccount true stored := by
  cases stored with
  | none => rfl
  | some account =>
    have htruthy : truthy js (object account.members) = true := rfl
    have huser : get "user" (object account.members) = some account.user := account.get_user []
    have htoken : get "token" (object account.members) = some (str account.token) :=
      account.get_token []
    rw [Option.map_some, account.loadStored_members js, Tab.mount, htruthy, if_pos rfl, huser,
      htoken]
    rfl

theorem Browser.signIn_object (b : Browser P) (p : P) (members : List (String × Json)) :
    b.signIn p (.resolved (object members)) =
      b.persist p (get "user" (object members)) (get "token" (object members)) :=
  rfl

/-- What the form makes of an answer. -/
theorem signIn_ok (p : P) (mode : Mode) (account : Account) :
    (Browser.ofAccounts a).signIn p (request js (answer js mode (.ok account))) =
      .ofAccounts { a with
        stored := some account
        seen := Function.update a.seen p (some account) } := by
  let body := object (("success", .bool true) :: account.members)
  have huser : get "user" body = some account.user := account.get_user [_]
  have htoken : get "token" body = some (str account.token) := account.get_token [_]
  have hupdate := update_seen a.ready a.seen p (some account)
  rw [account.request_answer js mode, successBody, Browser.signIn_object, huser, htoken]
  exact congrArg (Browser.mk _ · _) hupdate

theorem signIn_error (p : P) (mode : Mode) (failure : Failure js) (b : Browser P) :
    b.signIn p (request js (answer js mode (.error failure))) = b := by
  cases failure with
  | thrown err h =>
    rw [answer, Failure.response, request_thrown js h]
    rfl
  | noJson res h =>
    rw [answer, Failure.response, request_noJson js h]
    cases Response.ok res.status <;> rfl
  | lost => rfl

/-- A step of the browser is one of the accounts. -/
theorem step_ofAccounts (ha : a.Sound) (e : Event js P) :
    (Browser.ofAccounts a).step js e = (a.step e).map .ofAccounts := by
  cases e with
  | opened p =>
    exact congrArg (some <| Browser.mk _ · _) (update_ofAccount a.ready a.seen p false none)
  | mounted p =>
    have hmount := Tab.mount_ofAccount js (a.ready p) a.stored
    have hupdate := update_ofAccount a.ready a.seen p true a.stored
    unfold Browser.step Accounts.step
    cases hready : a.ready p with
    | true => simp [Browser.ofAccounts, Tab.ofAccount, hready]
    | false =>
      rw [hready] at hmount
      simp only [Browser.ofAccounts, ha p hready, hready, hmount, hupdate]
      rfl
  | answered p mode result =>
    show (if a.ready p then some _ else none) = Option.map _ (if a.ready p then _ else none)
    cases a.ready p with
    | false => rfl
    | true =>
      cases result with
      | error failure => exact congrArg some (signIn_error p mode failure _)
      | ok account => exact congrArg some (signIn_ok p mode account)
  | logout p =>
    show (if a.ready p then some _ else none) = Option.map _ (if a.ready p then some _ else none)
    cases a.ready p with
    | false => rfl
    | true => exact congrArg (some <| Browser.mk _ · _) (update_seen a.ready a.seen p none)
  | request p =>
    have hheader := authorization_ofAccount js (a.ready p) (a.seen p)
    show some ((Browser.ofAccounts a).send js p) = some _
    simp [Browser.send, Browser.ofAccounts, hheader]

end Steps

/-- A tab that is not ready stays without an account. -/
theorem Accounts.Sound.step {a a' : Accounts P} {e : Event js P} (ha : a.Sound)
    (h : a.step e = some a') : a'.Sound := by
  have hready : ∀ p account, a.ready p = true →
      ∀ q, a.ready q = false → Function.update a.seen p account q = none := by
    intro p account hp q hq
    have hne : q ≠ p := by
      rintro rfl
      rw [hp] at hq
      cases hq
    rw [Function.update_of_ne hne]
    exact ha q hq
  cases e with
  | opened p =>
    obtain rfl := Option.some.inj h
    intro q hq
    obtain rfl | hne := eq_or_ne q p
    · exact Function.update_self _ _ _
    · dsimp only at hq ⊢
      rw [Function.update_of_ne hne] at hq ⊢
      exact ha q hq
  | mounted p =>
    obtain ⟨-, h⟩ := Option.ite_none_left_eq_some.mp h
    obtain rfl := Option.some.inj h
    intro q hq
    dsimp only at hq ⊢
    have hne : q ≠ p := by
      rintro rfl
      rw [Function.update_self] at hq
      cases hq
    rw [Function.update_of_ne hne] at hq ⊢
    exact ha q hq
  | answered p mode result =>
    obtain ⟨hp, h⟩ := Option.ite_none_right_eq_some.mp h
    cases result with
    | error failure =>
      obtain rfl := Option.some.inj h
      exact ha
    | ok account =>
      obtain rfl := Option.some.inj h
      exact hready p (some account) hp
  | logout p =>
    obtain ⟨hp, h⟩ := Option.ite_none_right_eq_some.mp h
    obtain rfl := Option.some.inj h
    exact hready p none hp
  | request p =>
    obtain rfl := Option.some.inj h
    exact ha

/-! ### Runs -/

omit [DecidableEq P] in
theorem Accounts.sound_start : (Accounts.start : Accounts P).Sound := fun _ _ => rfl

/-- The browser has the runs of its accounts, and no others. -/
theorem run_ofAccounts (events : List (Event js P)) :
    Browser.run js events = (Accounts.run events).map .ofAccounts := by
  have hrun : ∀ a : Accounts P, a.Sound → events.foldlM (Browser.step js) (.ofAccounts a) =
      (events.foldlM Accounts.step a).map .ofAccounts := by
    induction events with
    | nil => exact fun _ _ => rfl
    | cons e events ih =>
      intro a ha
      rw [List.foldlM_cons, List.foldlM_cons, step_ofAccounts ha]
      cases ha' : a.step e with
      | none => rfl
      | some a' => exact ih a' (ha.step ha')
  exact hrun .start Accounts.sound_start

theorem Accounts.sound_of_run {events : List (Event js P)} {a : Accounts P}
    (h : Accounts.run events = some a) : a.Sound :=
  Runs.foldlM_induction h sound_start fun _ _ _ _ hstep ha => ha.step hstep

omit [DecidableEq P] in
/-- A page behind `ProtectedRoute` is shown in the tabs that have seen an account. -/
theorem shows_ofAccount {a : Accounts P} (ha : a.Sound) (p : P) :
    (Tab.ofAccount (a.ready p) (a.seen p)).shows js = (a.seen p).isSome := by
  cases hready : a.ready p with
  | false =>
    rw [ha p hready]
    rfl
  | true => cases a.seen p <;> rfl

/-- What the backend reads out of a header: for an account, its user until the token expires. -/
def ActsAs (authorization : Option String) : Option Account → Prop
  | none => ∀ (N : Type) [NatCast N] (jwt : Jwt N) (now : ℕ), requireAuth jwt authorization now =
      .error (unauthorized "Missing or invalid authorization token")
  | some account => ∀ (N : Type) [NatCast N] (jwt : Jwt N) (time now : ℕ),
      account.token = jwt.sign account.id time → requireAuth jwt authorization now =
        if now < time + jwt.lifetime then .ok (account.id : N)
        else .error (unauthorized "Token expired")

theorem actsAs_header (account : Option Account) : ActsAs (account.map Account.header) account := by
  cases account with
  | none => exact fun _ _ _ _ => rfl
  | some account =>
    intro N _ jwt time now htoken
    rw [Option.map_some, Account.header, htoken]
    exact Auth.requireAuth_sign jwt account.id time now

/-- In every run of a browser, what is stored, what each tab has and what it sends is what the
accounts say. A page behind `ProtectedRoute` is shown exactly while its tab has an account, and the
backend takes each request for the account that its tab has seen when it is sent, if any. -/
theorem authorized_of_run {events : List (Event js P)} {b : Browser P}
    (h : Browser.run js events = some b) :
    ∃ a, Accounts.run events = some a ∧ b = .ofAccounts a ∧
      (∀ p, (b.tab p).shows js = (a.seen p).isSome) ∧
      ∀ (i : ℕ) (sent : Sent P), b.log[i]? = some sent → ∃ account : Option Account,
        a.log[i]? = some (sent.tab, account) ∧ ActsAs sent.authorization account := by
  rw [run_ofAccounts] at h
  obtain ⟨a, ha, rfl⟩ := Option.map_eq_some_iff.mp h
  refine ⟨a, ha, rfl, shows_ofAccount (Accounts.sound_of_run ha), fun i sent hi => ?_⟩
  obtain ⟨⟨p, account⟩, hentry, rfl⟩ := Option.map_eq_some_iff.mp (List.getElem?_map .. ▸ hi)
  exact ⟨account, hentry, actsAs_header account⟩

def registeredAccount : Account := ⟨⟨1, "a@b.c", "ut"⟩, by decide⟩

/-- A user registers, opens a second tab, and logs out in the first, where a page goes on after an
answer. The second one has its account until it is loaded again. -/
def twoTabs : List (Event plainBuiltins Bool) :=
  [.opened false, .mounted false, .answered false .register (.ok registeredAccount),
    .opened true, .mounted true, .logout false, .request true, .request false,
    .opened true, .mounted true, .request true]

theorem authorized_of_run_twoTabs : ∃ b : Browser Bool,
    Browser.run plainBuiltins twoTabs = some b ∧
      b.log.map Sent.authorization = [some "Bearer ut", none, none] ∧
      ∃ a, Accounts.run twoTabs = some a ∧ b = .ofAccounts a ∧
        (∀ p, (b.tab p).shows plainBuiltins = (a.seen p).isSome) ∧
        ∀ (i : ℕ) (sent : Sent Bool), b.log[i]? = some sent → ∃ account : Option Account,
          a.log[i]? = some (sent.tab, account) ∧ ActsAs sent.authorization account := by
  obtain ⟨a, ha, hlog⟩ : ∃ a, Accounts.run twoTabs = some a ∧ a.log =
      [(true, some registeredAccount), (false, none), (true, none)] := ⟨_, rfl, rfl⟩
  have hrun : Browser.run plainBuiltins twoTabs = some (.ofAccounts a) := by
    rw [run_ofAccounts, ha, Option.map_some]
  refine ⟨.ofAccounts a, hrun, ?_, authorized_of_run hrun⟩
  rw [Browser.ofAccounts, hlog]
  rfl

end ScalableBooking.Frontend
