import Entitlements.Directory.Basic
import Entitlements.Directory.Config
import Entitlements.Http.Exchange
import Entitlements.Http.Payload
import Entitlements.Retry.Attempts

/-! # The directory of a service

The directory that asks the service over HTTP. Every request carries the token of the configuration
and is made again while it fails in a way that may pass; `HttpClient.interpret` says what a response
means, `HttpClient.directory` which resource each call asks for. A response counts by its status
even if its body does not arrive: a success is then an invalid response, whatever kept the body, and
an error is reported without a text. -/

namespace Entitlements

/-- A client of the service. -/
structure HttpClient (τ : Type) where
  config : DirectoryConfig
  retry : RetryPolicy
  transport : Transport τ

/-- The state of a client: that of the transport, and the retries reported so far. -/
structure HttpState (τ : Type) where
  network : τ
  events : List RetryEvent

namespace HttpClient

variable {τ α : Type} (c : HttpClient τ)

/-- The client for a configuration, with its retries. -/
def ofConfig (config : DirectoryConfig) (transport : Transport τ) : HttpClient τ :=
  ⟨config, config.retryPolicy, transport⟩

/-- The name under which the client asks. -/
def agent : String := "iam-directory/0.1.0"

/-- Whether a token can stand in a header: of the controls only the tab can. -/
def isSendable (token : String) : Bool :=
  token.toList.all fun c => c = '\t' || (0x20 ≤ c.toNat && c.toNat != 0x7F)

/-- The request for an address, if it can be sent. -/
def request? (url : String) (fields : List (String × String)) : Option Request := do
  let address ← Url.parse? c.transport.names url
  if c.config.bearerToken.all isSendable then
    some ⟨address.withFields fields, Url.credentials? url,
      c.config.bearerToken.map ("Bearer " ++ ·), none, agent⟩
  else none

/-- What a response means for those who asked. -/
def interpret (wording : Wording) (decode : Json → Option α) (inquiry : Inquiry) (r : Arrival) :
    Except DirectoryError α :=
  if r.isSuccess then
    match r.body with
    | .error words => .error (.invalidResponse (some words))
    | .ok bytes =>
      match (Json.parseBytes? bytes).bind decode with
      | some a => .ok a
      | none => .error (.invalidResponse (wording.undecodable inquiry bytes))
  else .error (.ofStatus r.status inquiry.resource inquiry.operation inquiry.id r.text)

/-- One attempt at a request. -/
def attempt (url : String) (fields : List (String × String)) (decode : Json → Option α)
    (inquiry : Inquiry) : StateM τ (Except DirectoryError α) :=
  match c.request? url fields with
  | none => return .error (.request ⟨.unsendable, c.transport.wording.unsendable url⟩)
  | some request => do
    match ← c.transport.attempt request with
    | .answered r => return interpret c.transport.wording decode inquiry r
    | .failed failure => return .error (.request failure)

/-- Asks for a resource, again and again if need be. -/
def get (url : String) (fields : List (String × String)) (decode : Json → Option α)
    (inquiry : Inquiry) : Access (HttpState τ) α := fun s =>
  let attempt := c.attempt url fields decode inquiry
  let (run, network) := (c.retry.run DirectoryError.isTransient attempt).run s.network
  let s : HttpState τ := ⟨network, s.events ++ run.events⟩
  match run.result with
  | .finished (.ok a) => (.ok a, s)
  | .finished (.error e) => (.error (.error e), s)
  | .invalidDelay => (.error (.abort .invalidDelay), s)

/-- Asks for a list of records. -/
def getList [Wire α] (url : String) (inquiry : Inquiry) : Access (HttpState τ) (List α) :=
  c.get url [] listPayload? inquiry

/-- The fields of a query for resolved permissions. -/
def resolutionFields (query : EffectivePermissionsQuery) (page size : Nat) :
    List (String × String) :=
  [("entityId", query.entityId), ("entityType", query.entityType.name), ("page", toString page),
    ("size", toString size)]
    ++ if query.services.isEmpty then [] else [("services", ",".intercalate query.services)]

/-- The directory of the service. -/
def directory : Directory (HttpState τ) where
  account := c.config.account
  groups := c.getList (c.config.accountUrl "groups") ⟨"group", "list", ""⟩
  group uuid := c.get (c.config.accountUrl ("groups/" ++ uuid)) [] ofJson? ⟨"group", "get", uuid⟩
  users := c.getList (c.config.accountUrl "users") ⟨"user", "list", ""⟩
  user uid := c.get (c.config.accountUrl ("users/" ++ uid)) [] ofJson? ⟨"user", "get", uid⟩
  groupsOfUser uid :=
    c.getList (c.config.accountUrl ("users/" ++ uid ++ "/groups")) ⟨"user", "get groups of", uid⟩
  bindings := do
    let found ← c.get (c.config.repositoryUrl "bindings") [] bindingsPayload?
      ⟨"binding", "list", ""⟩
    return PolicyBindings.flatten c.config.account found
  bindingsOfGroup uuid := do
    let found ← c.get (c.config.repositoryUrl ("bindings/groups/" ++ uuid)) [] bindingsPayload?
      ⟨"binding", "get bindings for group", uuid⟩
    return PolicyBindings.ofGroup c.config.account uuid found
  policies := c.getList (c.config.repositoryUrl "policies") ⟨"policy", "list", ""⟩
  policy uuid :=
    c.get (c.config.repositoryUrl ("policies/" ++ uuid)) [] ofJson? ⟨"policy", "get", uuid⟩
  effectivePermissions query page size :=
    c.get (c.config.url ("resolution/" ++ query.levelType ++ "/" ++ query.levelId ++
        "/effectivepermissions"))
      (resolutionFields query page size) ofJson?
      ⟨"effective permissions", "resolve", query.entityId⟩

end HttpClient

end Entitlements
