import Entitlements.Http.Client
import Entitlements.Proofs.Directory.Calls

/-! # Questions to a service

Every call of the directory puts one `Question` to the service (`Fetch.question`): an address with
fields, and how the payload of the answer is read. `Question.Reads` is what the answer means, in
terms of its status and its body alone. -/

namespace Entitlements

/-! ### Questions -/

/-- The server has done what it was asked to. -/
def Arrival.Succeeded (r : Arrival) : Prop := 200 ≤ r.status ∧ r.status < 300

theorem Arrival.isSuccess_iff {r : Arrival} : r.isSuccess = true ↔ r.Succeeded := by
  simp [isSuccess, Succeeded]

/-- What is asked of the service, and how the payload of its answer is read. -/
structure Question (α : Type) where
  url : String
  fields : List (String × String)
  decode : Json → Option α
  inquiry : Inquiry

namespace Question

variable {α β : Type}

/-- A question for all records of a kind. -/
def list [Wire α] (url resource : String) : Question (List α) :=
  ⟨url, [], listPayload?, ⟨resource, "list", ""⟩⟩

/-- A question for one record. -/
def one [Wire α] (url resource id : String) : Question α :=
  ⟨url, [], ofJson?, ⟨resource, "get", id⟩⟩

/-- A question for bindings, which come grouped by policy. -/
def bindings (url operation id : String) : Question (List PolicyBindings) :=
  ⟨url, [], bindingsPayload?, ⟨"binding", operation, id⟩⟩

/-- The question whose answer is made into another one. -/
def map (q : Question α) (f : α → β) : Question β :=
  { q with decode := fun payload => (q.decode payload).map f }

/-- A body that can be read as an answer. -/
def Decodes (q : Question α) (body : List UInt8) (a : α) : Prop :=
  ∃ payload, Json.parseBytes? body = some payload ∧ q.decode payload = some a

/-- What the last delivery means for those who asked. Where nobody but the client is at fault, the
words are those of the ones who send and read for it. -/
inductive Reads (w : Wording) (q : Question α) : Delivery → Except DirectoryError α → Prop
  | decoded {r : Arrival} {bytes : List UInt8} {a : α} (hs : r.Succeeded)
      (hbody : r.body = .ok bytes) (h : q.Decodes bytes a) : Reads w q (.answered r) (.ok a)
  | undecodable {r : Arrival} {bytes : List UInt8} (hs : r.Succeeded)
      (hbody : r.body = .ok bytes) (h : ∀ a, ¬ q.Decodes bytes a) :
      Reads w q (.answered r) (.error (.invalidResponse (w.undecodable q.inquiry bytes)))
  | stalled {r : Arrival} {words : String} (hs : r.Succeeded) (hbody : r.body = .error words) :
      Reads w q (.answered r) (.error (.invalidResponse (some words)))
  | missing {r : Arrival} (hs : r.status = 404) :
      Reads w q (.answered r) (.error (.notFound q.inquiry.resource q.inquiry.id))
  | denied {r : Arrival} (hs : r.status = 403) :
      Reads w q (.answered r) (.error (.permissionDenied q.inquiry.resource q.inquiry.operation))
  | conflicting {r : Arrival} (hs : r.status = 409) :
      Reads w q (.answered r) (.error (.conflict q.inquiry.resource))
  | refused {r : Arrival} (hs : ¬ r.Succeeded) (h404 : r.status ≠ 404) (h403 : r.status ≠ 403)
      (h409 : r.status ≠ 409) :
      Reads w q (.answered r) (.error (.generic q.inquiry.resource q.inquiry.operation r.text
        (some r.status)))
  | failed (failure : TransportFailure) : Reads w q (.failed failure) (.error (.request failure))

variable {w : Wording}

theorem Decodes.map {q : Question α} {body : List UInt8} {a : α} (h : q.Decodes body a)
    (f : α → β) : (q.map f).Decodes body (f a) := by
  obtain ⟨payload, hpayload, ha⟩ := h
  refine ⟨payload, hpayload, ?_⟩
  show (q.decode payload).map f = _
  rw [ha, Option.map_some]

theorem Decodes.of_map {q : Question α} {f : α → β} {body : List UInt8} {b : β}
    (h : (q.map f).Decodes body b) : ∃ a, q.Decodes body a ∧ f a = b := by
  obtain ⟨payload, hpayload, hb⟩ := h
  obtain ⟨a, ha, rfl⟩ := Option.map_eq_some_iff.mp hb
  exact ⟨a, ⟨payload, hpayload, ha⟩, rfl⟩

theorem Reads.map {q : Question α} {d : Delivery} {outcome : Except DirectoryError α}
    (h : q.Reads w d outcome) (f : α → β) : (q.map f).Reads w d (outcome.map f) := by
  cases h with
  | decoded hs hbody h => exact .decoded hs hbody (h.map f)
  | undecodable hs hbody h =>
    refine .undecodable hs hbody fun b hb => ?_
    obtain ⟨a, ha, -⟩ := hb.of_map
    exact h a ha
  | stalled hs hbody => exact .stalled hs hbody
  | missing hs => exact .missing hs
  | denied hs => exact .denied hs
  | conflicting hs => exact .conflicting hs
  | refused hs h404 h403 h409 => exact .refused hs h404 h403 h409
  | failed failure => exact .failed failure

/-- **An error after an unsuccessful answer** carries the status of that answer. -/
theorem Reads.statusCode {q : Question α} {r : Arrival} {outcome : Except DirectoryError α}
    (h : q.Reads w (.answered r) outcome) (hr : ¬ r.Succeeded) :
    ∃ e, outcome = .error e ∧ e.statusCode = some r.status := by
  cases h with
  | decoded hs => exact absurd hs hr
  | undecodable hs => exact absurd hs hr
  | stalled hs => exact absurd hs hr
  | missing hs => exact ⟨_, rfl, by rw [hs]; rfl⟩
  | denied hs => exact ⟨_, rfl, by rw [hs]; rfl⟩
  | conflicting hs => exact ⟨_, rfl, by rw [hs]; rfl⟩
  | refused => exact ⟨_, rfl, rfl⟩

end Question

/-! ### Calls -/

/-- A call that asks the service. -/
inductive Fetch where
  | ask (c : CachedCall)
  | groupByName (name : String)
  | userByEmail (email : String)
  | policyByName (name : String)
  | page (query : EffectivePermissionsQuery) (number size : Nat)

namespace Fetch

/-- What a call gives when it succeeds. -/
@[reducible] def Answer : Fetch → Type
  | ask c => c.Answer
  | groupByName _ => Option Group
  | userByEmail _ => Option User
  | policyByName _ => Option Policy
  | page .. => EffectivePermissionsPage

/-- The call on a directory. -/
def on {σ : Type} (d : Directory σ) : (x : Fetch) → Access σ x.Answer
  | ask c => d.ask c
  | groupByName name => d.groupByName name
  | userByEmail email => d.userByEmail email
  | policyByName name => d.policyByName name
  | page query number size => d.effectivePermissions query number size

variable (config : DirectoryConfig)

/-- The question that is put for a call whose answers may be kept. -/
def questionOf : (c : CachedCall) → Question c.Answer
  | .groups => .list (config.accountUrl "groups") "group"
  | .group uuid => .one (config.accountUrl ("groups/" ++ uuid)) "group" uuid
  | .users => .list (config.accountUrl "users") "user"
  | .user uid => .one (config.accountUrl ("users/" ++ uid)) "user" uid
  | .groupsOfUser uid =>
    ⟨config.accountUrl ("users/" ++ uid ++ "/groups"), [], listPayload?,
      ⟨"user", "get groups of", uid⟩⟩
  | .bindings =>
    (Question.bindings (config.repositoryUrl "bindings") "list" "").map
      (PolicyBindings.flatten config.account)
  | .bindingsOfGroup uuid =>
    (Question.bindings (config.repositoryUrl ("bindings/groups/" ++ uuid))
      "get bindings for group" uuid).map (PolicyBindings.ofGroup config.account uuid)
  | .policies => .list (config.repositoryUrl "policies") "policy"
  | .policy uuid => .one (config.repositoryUrl ("policies/" ++ uuid)) "policy" uuid

/-- The fields that ask for a page of permissions; services are named if there are any. -/
def pageFields (query : EffectivePermissionsQuery) (number size : Nat) : List (String × String) :=
  [("entityId", query.entityId), ("entityType", query.entityType.name), ("page", toString number),
    ("size", toString size)] ++
    match query.services with
    | [] => []
    | services => [("services", ",".intercalate services)]

theorem resolutionFields_eq (query : EffectivePermissionsQuery) (number size : Nat) :
    HttpClient.resolutionFields query number size = pageFields query number size := by
  unfold HttpClient.resolutionFields pageFields
  cases query.services <;> rfl

/-- The question that is put for a call. -/
def question : (x : Fetch) → Question x.Answer
  | ask c => questionOf config c
  | groupByName name => (questionOf config .groups).map (·.find? (·.name == name))
  | userByEmail email => (questionOf config .users).map (·.find? (sameLetters ·.email email))
  | policyByName name => (questionOf config .policies).map (·.find? (·.name == name))
  | page query number size =>
    ⟨config.url ("resolution/" ++ query.levelType ++ "/" ++ query.levelId ++
        "/effectivepermissions"),
      pageFields query number size, ofJson?,
      ⟨"effective permissions", "resolve", query.entityId⟩⟩

end Fetch

end Entitlements
