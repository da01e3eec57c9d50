import ScalableBooking.LbProxy.Headers
import ScalableBooking.LbProxy.Proxy

/-!
# The outbound request

The piece of `handle` between the routing decision and the upstream client: the target, the
headers (`outHeaders`), and the copy loop that hands them to the builder of the request.

A `HeaderMap` is iterated in an order of its own. All that is known of it is that the values of
one name come in their order (`Iterates`), and that is enough: what the builder collects is the
map that has been iterated (`foldl_append_eq`). So the backend sees `outHeaders` of the inbound
headers, and these depend neither on the fields of a single hop nor on `X-Forwarded-For`
(`outHeaders_congr`).

Parsing a target, its authority, and the limit of a `HeaderMap` are the `http` crate's.
-/

namespace ScalableBooking.LbProxy

/-- What `handle` takes from an inbound request. -/
structure InboundRequest (D : Type*) where
  method : String
  pathAndQuery : Option String
  headers : Headers
  body : D

/-- The request to the backend. -/
structure OutboundRequest (U D : Type*) where
  method : String
  uri : U
  headers : Headers
  body : D

/-- What the `http` crate decides. -/
structure Http (U : Type*) where
  /-- `str::parse::<Uri>`. -/
  parse : String → Option U
  /-- `Uri::authority`. -/
  authority : U → Option String
  /-- Whether a `HeaderMap` has room for these headers. -/
  fits : Headers → Bool

/-- `HeaderMap::append`: the value is added after those under the name. -/
def Headers.append (headers : Headers) (name value : String) : Headers :=
  Function.update headers name (headers name ++ [value])

/-- `HeaderMap::iter` may yield these pairs. -/
def Iterates (headers : Headers) (pairs : List (String × String)) : Prop :=
  ∀ name, (pairs.filter fun p => p.1 = name).map Prod.snd = headers name

/-- The headers that the builder has collected after the copy loop. -/
def copyHeaders (pairs : List (String × String)) : Headers :=
  pairs.foldl (fun headers p => headers.append p.1 p.2) fun _ => []

variable {U D : Type*}

namespace InboundRequest

variable (http : Http U) (req : InboundRequest D) (backendUrl : String)

/-- `target_uri`. -/
def target : Option U := http.parse (backendUrl ++ req.pathAndQuery.getD "/")

/-- `out_headers`, for a target. -/
def outHeaders (uri : U) (peer : SocketAddr) : Headers :=
  LbProxy.outHeaders req.headers ((http.authority uri).getD "") peer

/-- `out_req`, where `pairs` is what iterating `out_headers` yields. -/
def outbound (pairs : List (String × String)) : Except BuildOutcome (OutboundRequest U D) :=
  match req.target http backendUrl with
  | none => .error .badTarget
  | some uri =>
    if http.fits (copyHeaders pairs) then .ok ⟨req.method, uri, copyHeaders pairs, req.body⟩
    else .error .buildFailed

end InboundRequest

/-! ### The copy loop -/

theorem foldl_append_eq (pairs : List (String × String)) (headers : Headers) (name : String) :
    pairs.foldl (fun headers p => headers.append p.1 p.2) headers name =
      headers name ++ (pairs.filter fun p => p.1 = name).map Prod.snd := by
  induction pairs generalizing headers with
  | nil => exact (List.append_nil _).symm
  | cons p pairs ih =>
    rw [List.foldl_cons, ih, Headers.append]
    by_cases hname : p.1 = name
    · subst hname
      simp
    · rw [Function.update_of_ne (Ne.symm hname), List.filter_cons_of_neg (by simpa using hname)]

theorem copyHeaders_apply (pairs : List (String × String)) (name : String) :
    copyHeaders pairs name = (pairs.filter fun p => p.1 = name).map Prod.snd := by
  rw [copyHeaders, foldl_append_eq, List.nil_append]

/-- The copy has the same values under each name, in the same order. -/
theorem iterates_iff {headers : Headers} {pairs : List (String × String)} :
    Iterates headers pairs ↔ copyHeaders pairs = headers := by
  rw [funext_iff]
  simp only [copyHeaders_apply, Iterates]

/-! ### What the backend sees -/

/-- The names whose inbound values have no influence. -/
def Ignored (name : String) : Prop := name ∈ hopByHop ∨ name = "x-forwarded-for"

instance (name : String) : Decidable (Ignored name) := inferInstanceAs (Decidable (_ ∨ _))

theorem outHeaders_host (headers : Headers) (host : String) (peer : SocketAddr) :
    outHeaders headers host peer "host" = [host] := by
  rw [outHeaders, setForwardedFor, Headers.insert, Function.update_of_ne (by decide),
    Headers.insert, Function.update_self]

/-- Every other header is forwarded as it is. -/
theorem outHeaders_of_not_ignored {name : String} (h : ¬ Ignored name) (headers : Headers)
    (host : String) (peer : SocketAddr) : outHeaders headers host peer name = headers name := by
  obtain ⟨hhop, hfor⟩ := not_or.mp h
  have hhost : name ≠ "host" := by
    rintro rfl
    exact hhop (by decide)
  rw [outHeaders_of_ne headers host peer hhost hfor, if_neg hhop]

theorem outHeaders_congr {headers headers' : Headers} {peer peer' : SocketAddr}
    (hheaders : ∀ name, ¬ Ignored name → headers name = headers' name) (hpeer : peer.ip = peer'.ip)
    (host : String) : outHeaders headers host peer = outHeaders headers' host peer' := by
  funext name
  by_cases hfor : name = "x-forwarded-for"
  · subst hfor
    rw [outHeaders_forwardedFor, outHeaders_forwardedFor, hpeer]
  by_cases hhost : name = "host"
  · subst hhost
    rw [outHeaders_host, outHeaders_host]
  rw [outHeaders_of_ne headers host peer hhost hfor,
    outHeaders_of_ne headers' host peer' hhost hfor]
  split
  · rfl
  · next hhop => exact hheaders name (not_or.mpr ⟨hhop, hfor⟩)

/-- With a target, and room for the headers, the request is built, and its headers are
`out_headers`. -/
theorem InboundRequest.outbound_eq_ok {http : Http U} {backendUrl : String}
    {req : InboundRequest D} {peer : SocketAddr} {pairs : List (String × String)} {uri : U}
    (huri : req.target http backendUrl = some uri)
    (hpairs : Iterates (req.outHeaders http uri peer) pairs)
    (hfits : http.fits (req.outHeaders http uri peer) = true) :
    req.outbound http backendUrl pairs =
      .ok ⟨req.method, uri, req.outHeaders http uri peer, req.body⟩ := by
  rw [InboundRequest.outbound, huri, iterates_iff.mp hpairs]
  exact if_pos hfits

/-- **Hop headers have no influence.** Two requests from one address to one backend that agree on
method, path and query, body, and every header but the ten of a hop and `X-Forwarded-For`, become
the same outbound request, whatever order their headers are copied in. It is built if its target
can be parsed and its headers have room. In it `Host` is the authority of the target,
`X-Forwarded-For` the address, and each header that is not ignored has the inbound values in their
order. -/
theorem outbound_eq (http : Http U) (backendUrl : String) {req req' : InboundRequest D}
    {peer peer' : SocketAddr} {pairs pairs' : List (String × String)}
    (hmethod : req.method = req'.method) (hpath : req.pathAndQuery = req'.pathAndQuery)
    (hbody : req.body = req'.body)
    (hheaders : ∀ name, ¬ Ignored name → req.headers name = req'.headers name)
    (hpeer : peer.ip = peer'.ip)
    (hpairs : ∀ uri, req.target http backendUrl = some uri →
      Iterates (req.outHeaders http uri peer) pairs)
    (hpairs' : ∀ uri, req'.target http backendUrl = some uri →
      Iterates (req'.outHeaders http uri peer') pairs') :
    req.outbound http backendUrl pairs = req'.outbound http backendUrl pairs' ∧
      (∀ uri, req.target http backendUrl = some uri →
        http.fits (req.outHeaders http uri peer) = true →
          ∃ out, req.outbound http backendUrl pairs = .ok out) ∧
      ∀ out, req.outbound http backendUrl pairs = .ok out →
        out.method = req.method ∧ req.target http backendUrl = some out.uri ∧
        out.body = req.body ∧ out.headers "host" = [(http.authority out.uri).getD ""] ∧
        out.headers "x-forwarded-for" = [peer.ip] ∧
        (∀ name ∈ hopByHop, name ≠ "host" → out.headers name = []) ∧
        ∀ name, ¬ Ignored name → out.headers name = req.headers name := by
  -- where the request goes depends on the path and the query alone
  have htarget : req'.target http backendUrl = req.target http backendUrl := by
    rw [InboundRequest.target, InboundRequest.target, hpath]
  refine ⟨?_, fun uri huri hfits => ⟨_, InboundRequest.outbound_eq_ok huri (hpairs uri huri)
    hfits⟩, ?_⟩
  · rw [InboundRequest.outbound, InboundRequest.outbound, htarget]
    cases huri : req.target http backendUrl with
    | none => rfl
    | some uri =>
      -- the headers that may differ are removed or written over
      have hout : req.outHeaders http uri peer = req'.outHeaders http uri peer' :=
        outHeaders_congr hheaders hpeer _
      dsimp only
      rw [iterates_iff.mp (hpairs uri huri), iterates_iff.mp (hpairs' uri (htarget.trans huri)),
        hout, hmethod, hbody]
  · intro out hok
    cases huri : req.target http backendUrl with
    | none =>
      rw [InboundRequest.outbound, huri] at hok
      cases hok
    | some uri =>
      cases hfits : http.fits (req.outHeaders http uri peer) with
      | false =>
        rw [InboundRequest.outbound, huri, iterates_iff.mp (hpairs uri huri)] at hok
        simp [hfits] at hok
      | true =>
        rw [InboundRequest.outbound_eq_ok huri (hpairs uri huri) hfits] at hok
        obtain rfl := Except.ok.inj hok
        have hhost := outHeaders_host req.headers ((http.authority uri).getD "") peer
        have hfor := outHeaders_forwardedFor req.headers ((http.authority uri).getD "") peer
        refine ⟨rfl, rfl, rfl, hhost, hfor, ?_, ?_⟩
        · intro name hhop hne
          have hne' : name ≠ "x-forwarded-for" := by
            rintro rfl
            exact absurd hhop (by decide)
          exact (outHeaders_of_ne req.headers _ peer hne hne').trans (if_pos hhop)
        · intro name hname
          exact outHeaders_of_not_ignored hname req.headers ((http.authority uri).getD "") peer

/-! ### A client that claims to be another one -/

/-- What the crate makes of the one target below. -/
def httpOfBackend : Http String where
  parse s := if s = "http://backend-0:3000/events?day=1" then some s else none
  authority _ := some "backend-0:3000"
  fits _ := true

/-- A request with a forged chain and hop headers, and the same one without. -/
def forgedRequest : InboundRequest Unit where
  method := "GET"
  pathAndQuery := some "/events?day=1"
  headers := copyHeaders [("host", "internal"), ("connection", "close"),
    ("x-forwarded-for", "203.0.113.7"), ("x-forwarded-for", "10.0.0.1"), ("accept", "a"),
    ("accept", "b")]
  body := ()

def plainRequest : InboundRequest Unit where
  method := "GET"
  pathAndQuery := some "/events?day=1"
  headers := copyHeaders [("accept", "a"), ("accept", "b")]
  body := ()

/-- The order in which the headers of the two are iterated, one for each. -/
def forgedPairs : List (String × String) :=
  [("accept", "a"), ("accept", "b"), ("host", "backend-0:3000"),
    ("x-forwarded-for", "192.168.1.20")]

def plainPairs : List (String × String) :=
  [("x-forwarded-for", "192.168.1.20"), ("host", "backend-0:3000"), ("accept", "a"),
    ("accept", "b")]

theorem forgedRequest_headers {name : String} (hname : ¬ Ignored name) :
    forgedRequest.headers name = plainRequest.headers name := by
  have hconnection : "connection" ≠ name := by
    rintro rfl
    exact hname (Or.inl (by decide))
  have hhost : "host" ≠ name := by
    rintro rfl
    exact hname (Or.inl (by decide))
  have hfor : "x-forwarded-for" ≠ name := by
    rintro rfl
    exact hname (Or.inr rfl)
  simp only [forgedRequest, plainRequest, copyHeaders_apply, List.filter_cons, hconnection,
    hhost, hfor, decide_false, Bool.false_eq_true, if_false]

/-- What the proxy makes of the plain one. -/
theorem plainRequest_outHeaders (uri : String) (port : ℕ) :
    plainRequest.outHeaders httpOfBackend uri ⟨"192.168.1.20", port⟩ = copyHeaders plainPairs := by
  funext name
  by_cases hfor : name = "x-forwarded-for"
  · subst hfor
    exact outHeaders_forwardedFor _ _ _
  by_cases hhost : name = "host"
  · subst hhost
    exact outHeaders_host _ _ _
  refine (outHeaders_of_ne _ _ _ hhost hfor).trans ?_
  show (if name ∈ hopByHop then [] else copyHeaders [("accept", "a"), ("accept", "b")] name) = _
  rw [copyHeaders_apply, copyHeaders_apply, plainPairs]
  by_cases haccept : name = "accept"
  · subst haccept
    rfl
  simp [Ne.symm hfor, Ne.symm hhost, Ne.symm haccept]

theorem outbound_forgedRequest :
    ∃ out, forgedRequest.outbound httpOfBackend "http://backend-0:3000" forgedPairs = .ok out ∧
      plainRequest.outbound httpOfBackend "http://backend-0:3000" plainPairs = .ok out ∧
      out.uri = "http://backend-0:3000/events?day=1" ∧ out.headers "host" = ["backend-0:3000"] ∧
      out.headers "x-forwarded-for" = ["192.168.1.20"] ∧ out.headers "connection" = [] ∧
      out.headers "accept" = ["a", "b"] := by
  have hplain (uri : String) :
      Iterates (plainRequest.outHeaders httpOfBackend uri ⟨"192.168.1.20", 60000⟩)
        plainPairs :=
    iterates_iff.mpr (plainRequest_outHeaders uri 60000).symm
  have hforged (uri : String) :
      Iterates (forgedRequest.outHeaders httpOfBackend uri ⟨"192.168.1.20", 54321⟩)
        forgedPairs := by
    have h : forgedRequest.outHeaders httpOfBackend uri ⟨"192.168.1.20", 54321⟩ =
        plainRequest.outHeaders httpOfBackend uri ⟨"192.168.1.20", 54321⟩ :=
      outHeaders_congr (fun _ => forgedRequest_headers) rfl _
    rw [h, iterates_iff, plainRequest_outHeaders]
    funext name
    -- the same pairs in another order: name by name they are the same values
    rw [copyHeaders_apply, copyHeaders_apply, forgedPairs, plainPairs]
    by_cases haccept : name = "accept"
    · subst haccept
      rfl
    by_cases hhost : name = "host"
    · subst hhost
      rfl
    simp [List.filter_cons, Ne.symm haccept, Ne.symm hhost]
  have htarget : forgedRequest.target httpOfBackend "http://backend-0:3000" =
      some "http://backend-0:3000/events?day=1" := rfl
  obtain ⟨heq, hbuilt, hout⟩ :=
    @outbound_eq String Unit httpOfBackend "http://backend-0:3000" forgedRequest plainRequest
      _ _ _ _ rfl rfl rfl (fun _ => forgedRequest_headers) rfl (fun uri _ => hforged uri)
      fun uri _ => hplain uri
  obtain ⟨out, hok⟩ := hbuilt _ htarget rfl
  obtain ⟨-, huri, -, hhost, hfor, hhop, hothers⟩ := hout out hok
  refine ⟨out, hok, heq.symm.trans hok, (Option.some.inj (htarget.symm.trans huri)).symm, hhost,
    hfor, hhop _ (by decide) (by decide), ?_⟩
  rw [hothers "accept" (by decide)]
  rfl

end ScalableBooking.LbProxy
