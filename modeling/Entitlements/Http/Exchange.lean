import Entitlements.Directory.Error
import Entitlements.Http.Url

/-! # Exchanges with a server

Requests, responses, and what may become of a request on its way. A `Transport` is whoever sends
requests: some of its answers send the client on to another address, and an attempt follows these
redirections (`Transport.attempt`). A `RouteTable` is a server that answers from a list of routes.

The body of an answer arrives twice, as bytes and as a text, since the encoding of the text may be
named by the answer or by a mark in front of it. Success is read from the bytes, whatever encoding
is named; errors quote the text. -/

namespace Entitlements

/-- A request for a resource. -/
structure Request where
  address : Url
  /-- The name and the password that a header of their own carries. -/
  credentials : Option (String × String)
  /-- The value of the header that carries the token. -/
  authorization : Option String
  /-- The address from which the client was sent on to this one. -/
  referer : Option String
  /-- The name of the program that asks. -/
  agent : String
  deriving DecidableEq, Repr

namespace Request

/-- The server that is asked. -/
def origin (r : Request) : Origin := r.address.origin

/-- What the server is asked for. -/
def target (r : Request) : String := r.address.target

/-- The request that follows when the answer to this one sends the client on. Password and token
are for the host and port alone that they were sent to, and no address is passed on from `https` to
`http`. -/
def redirected (r : Request) (address : Url) : Request :=
  let same := address.origin.host = r.origin.host ∧ address.origin.port = r.origin.port
  { r with
    address
    credentials := if same then r.credentials else none
    authorization := if same then r.authorization else none
    referer := if r.origin.secure && !address.origin.secure then r.referer
      else some r.address.text }

end Request

/-- The answer of a server. -/
structure Response where
  status : UInt16
  body : List UInt8
  deriving DecidableEq, Repr

/-- The answer of a server as it arrives. -/
structure Arrival where
  status : UInt16
  /-- The address that the answer names as the place to look, if it can be asked there. -/
  location : Option Url
  /-- The bytes of the body, or in which words it is reported that they do not all arrive. -/
  body : Except String (List UInt8)
  /-- The body as a text, empty if it does not all arrive. -/
  text : String

namespace Arrival

/-- Whether the server has done what it was asked to. -/
def isSuccess (r : Arrival) : Bool := 200 ≤ r.status && r.status < 300

/-- The statuses of answers that send the client on. -/
def redirectingStatuses : List UInt16 := [301, 302, 303, 307, 308]

/-- The address that the client is sent on to. -/
def redirection? (r : Arrival) : Option Url :=
  if redirectingStatuses.contains r.status then r.location else none

end Arrival

/-- What becomes of a request that is sent. -/
inductive Delivery where
  | answered (r : Arrival)
  | failed (failure : TransportFailure)

/-- The address that the client is sent on to. -/
def Delivery.redirection? : Delivery → Option Url
  | answered r => r.redirection?
  | failed _ => none

/-! ### Sending -/

/-- What is asked for, in the terms of error reports. -/
structure Inquiry where
  resource : String
  operation : String
  id : String

/-- The words in which failures are reported that no server takes part in. -/
structure Wording where
  /-- An address for which no request can be sent. -/
  unsendable : String → Option String := fun _ => none
  /-- A request whose answer is one redirection too many. -/
  misled : Request → Option String := fun _ => none
  /-- A body that is not what was asked for. -/
  undecodable : Inquiry → List UInt8 → Option String := fun _ _ => none

/-- A way to send requests, with a state of type `τ`. -/
structure Transport (τ : Type) where
  /-- Sends one request to the server that it is for. -/
  send : Request → StateM τ Delivery
  /-- How many redirections are followed one after the other. -/
  redirections : Nat := 9
  /-- The names of servers that are not plain ASCII. -/
  names : AsciiNames := fun _ => none
  wording : Wording := {}

namespace Transport

variable {τ : Type} (t : Transport τ)

/-- Sends a request and follows redirections, up to `n` of them. -/
def follow (n : Nat) (request : Request) : StateM τ Delivery := do
  let delivery ← t.send request
  match delivery.redirection? with
  | none => return delivery
  | some address =>
    match n with
    | 0 => return .failed ⟨.misled, t.wording.misled request⟩
    | n + 1 => follow n (request.redirected address)

/-- One attempt at a request: redirections are part of it. -/
def attempt (request : Request) : StateM τ Delivery := t.follow t.redirections request

end Transport

/-! ### Servers with routes -/

/-- A rule for answering requests. -/
structure Route where
  /-- The path that the rule is for, if it is for one only. -/
  path : Option String
  /-- The path and query that the rule is for, if it is for one only. -/
  target : Option String
  response : Response
  /-- How often the rule can still be used, if there is a limit. -/
  times : Option Nat
  /-- The address that the response sends the client on to, if it does. -/
  location : Option Url := none

/-- Whether a rule is for a target and can still be used. -/
def Route.answers (r : Route) (target : String) : Bool :=
  r.times != some 0
    && r.path.all (· == .ofList (target.toList.takeWhile (· != '?')))
    && r.target.all (· == target)

/-- The rule after it has been used once more. -/
def Route.used (r : Route) : Route := { r with times := r.times.map (· - 1) }

/-- The answer by a rule as it arrives. Some statuses go without a body, and no encoding is named,
so that a body is UTF-8, with a byte order mark in front of it or without; the marks of other
encodings are not looked for. -/
def Route.arrival (r : Route) : Arrival :=
  let body := if r.response.status == 204 || r.response.status == 304 then [] else r.response.body
  ⟨r.response.status, r.location, .ok body, textOfBytes (dropMark body)⟩

/-- A server that answers by the first rule that fits. -/
structure RouteTable where
  origin : Origin
  /-- Whether the server accepts connections. -/
  listening : Bool
  routes : List Route
  /-- The requests seen so far, the first one first. -/
  seen : List Request

/-- The answer by the first rule for a target, and the rules after that. -/
def answerFrom (target : String) : List Route → Option (Arrival × List Route)
  | [] => none
  | r :: rs =>
    if r.answers target then some (r.arrival, r.used :: rs)
    else (answerFrom target rs).map fun (arrival, rs) => (arrival, r :: rs)

namespace RouteTable

/-- Answers a request; what no rule is for does not exist. -/
def answer (t : RouteTable) (request : Request) : Arrival × RouteTable :=
  let seen := t.seen ++ [request]
  match answerFrom request.target t.routes with
  | none => (⟨404, none, .ok [], ""⟩, { t with seen })
  | some (arrival, routes) => (arrival, { t with routes, seen })

/-- The way to the server; no other server can be reached. -/
def transport : Transport RouteTable where
  send request := fun t =>
    if t.listening && request.origin == t.origin then
      let (arrival, t) := t.answer request
      (.answered arrival, t)
    else (.failed ⟨.noConnection, none⟩, t)

end RouteTable

end Entitlements
