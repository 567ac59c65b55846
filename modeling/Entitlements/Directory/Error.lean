/-! # Directory errors

Why a directory gives no answer: the four ways in which the service reports a failure, and the two
of the connection to it. `DirectoryError.ofStatus` says which status means which. -/

namespace Entitlements

/-- In which way a request can fail before there is an answer to it. -/
inductive Breakdown where
  /-- The request cannot be sent at all. -/
  | unsendable
  /-- There is no connection to the server. -/
  | noConnection
  /-- The answer did not come in time. -/
  | timeout
  /-- One answer after the other sent the client on to another place. -/
  | misled
  /-- The exchange broke off in some other way. -/
  | brokenOff
  deriving DecidableEq, Repr

/-- How a request failed before there was an answer to it. -/
structure TransportFailure where
  kind : Breakdown
  /-- The words of the one who sent the request, if there are any. -/
  detail : Option String
  deriving DecidableEq, Repr

/-- Why a directory gives no answer. -/
inductive DirectoryError where
  /-- The resource does not exist. -/
  | notFound (resource id : String)
  /-- The caller may not do this. -/
  | permissionDenied (resource operation : String)
  /-- The resource exists already, or is of another version. -/
  | conflict (resource : String)
  /-- Any other failure, with the status if there was an answer. -/
  | generic (resource operation detail : String) (status : Option UInt16)
  /-- No answer. -/
  | request (failure : TransportFailure)
  /-- An answer that cannot be read, in the words of the reader if there are any. -/
  | invalidResponse (detail : Option String)
  deriving DecidableEq, Repr

namespace DirectoryError

/-- The error that an unsuccessful status stands for. -/
def ofStatus (status : UInt16) (resource operation id body : String) : DirectoryError :=
  if status = 404 then .notFound resource id
  else if status = 403 then .permissionDenied resource operation
  else if status = 409 then .conflict resource
  else .generic resource operation body (some status)

/-- A text, and behind a colon what more is known. -/
def withDetail (text : String) : Option String → String
  | none => text
  | some detail => text ++ ": " ++ detail

/-- The error in words. -/
def message : DirectoryError → String
  | notFound resource id => resource ++ " not found: " ++ id
  | permissionDenied resource operation =>
    "Permission denied for " ++ operation ++ " on " ++ resource
  | conflict resource => "Conflict: " ++ resource ++ " already exists or version mismatch"
  | generic resource operation detail _ =>
    "Failed to " ++ operation ++ " " ++ resource ++ ": " ++ detail
  | request failure => withDetail "HTTP request failed" failure.detail
  | invalidResponse detail => withDetail "Invalid API response" detail

/-- The status that the error came with. -/
def statusCode : DirectoryError → Option UInt16
  | notFound .. => some 404
  | permissionDenied .. => some 403
  | conflict _ => some 409
  | generic _ _ _ status => status
  | request _ | invalidResponse _ => none

/-- Whether the resource does not exist. -/
def isNotFound : DirectoryError → Bool
  | notFound .. => true
  | _ => false

/-- The statuses after which the same request may still succeed: too many requests, and failures
of a server or gateway. -/
def transientStatuses : List UInt16 := [429, 500, 502, 503, 504]

/-- Whether the same request may succeed when it is made again. -/
def isTransient : DirectoryError → Bool
  | generic _ _ _ (some status) => transientStatuses.contains status
  | request failure => failure.kind == .noConnection || failure.kind == .timeout
  | _ => false

theorem statusCode_ofStatus (status : UInt16) (resource operation id body : String) :
    (ofStatus status resource operation id body).statusCode = some status := by
  unfold ofStatus
  split
  · next h => simp [statusCode, h]
  · split
    · next h => simp [statusCode, h]
    · split
      · next h => simp [statusCode, h]
      · rfl

end DirectoryError

end Entitlements
