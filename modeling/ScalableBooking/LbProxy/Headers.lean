import Mathlib.Data.Nat.Notation
import Mathlib.Logic.Function.Basic

/-!
# The headers that a backend receives

`strip_hop_by_hop` and `set_forwarded_for`, and the order in which `handle` uses them for the
outbound request. Whatever the inbound request claims in `X-Forwarded-For`, the backend reads
there the address of the connection that the proxy has accepted.
-/

namespace ScalableBooking.LbProxy

/-- The values under each name. Names are in lower case. -/
abbrev Headers := String → List String

/-- `HeaderMap::insert`: the value replaces those under the name. -/
def Headers.insert (headers : Headers) (name value : String) : Headers :=
  Function.update headers name [value]

/-- `HeaderMap::remove`. -/
def Headers.remove (headers : Headers) (name : String) : Headers :=
  Function.update headers name []

/-- The address of a TCP peer. -/
structure SocketAddr where
  ip : String
  port : ℕ
deriving DecidableEq, Repr

/-- The fields that are not forwarded across a hop. -/
def hopByHop : List String :=
  ["connection", "keep-alive", "proxy-authenticate", "proxy-authorization", "te", "trailer",
    "transfer-encoding", "upgrade", "host", "content-length"]

/-- `strip_hop_by_hop`. -/
def stripHopByHop (headers : Headers) : Headers :=
  hopByHop.foldl Headers.remove headers

/-- `set_forwarded_for`. -/
def setForwardedFor (headers : Headers) (peer : SocketAddr) : Headers :=
  headers.insert "x-forwarded-for" peer.ip

/-- `out_headers` of `handle`: `host` is the authority of the backend's address. -/
def outHeaders (headers : Headers) (host : String) (peer : SocketAddr) : Headers :=
  setForwardedFor ((stripHopByHop headers).insert "host" host) peer

theorem foldl_remove (names : List String) (headers : Headers) (name : String) :
    names.foldl Headers.remove headers name = if name ∈ names then [] else headers name := by
  induction names generalizing headers with
  | nil => rfl
  | cons removed names ih =>
    rw [List.foldl_cons, ih]
    by_cases hname : name = removed
    · simp [hname, Headers.remove]
    · simp [hname, Headers.remove]

/-- Besides `host` and the client's address every header is the client's, or is left out. -/
theorem outHeaders_of_ne {name : String} (headers : Headers) (host : String) (peer : SocketAddr)
    (hhost : name ≠ "host") (hfor : name ≠ "x-forwarded-for") :
    outHeaders headers host peer name = if name ∈ hopByHop then [] else headers name := by
  rw [outHeaders, setForwardedFor, Headers.insert, Function.update_of_ne hfor, Headers.insert,
    Function.update_of_ne hhost, stripHopByHop, foldl_remove]

/-- Of `X-Forwarded-For` nothing is the client's. -/
theorem outHeaders_forwardedFor (headers : Headers) (host : String) (peer : SocketAddr) :
    outHeaders headers host peer "x-forwarded-for" = [peer.ip] := by
  rw [outHeaders, setForwardedFor, Headers.insert, Function.update_self]

end ScalableBooking.LbProxy
