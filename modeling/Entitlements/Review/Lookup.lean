import Entitlements.Directory.Basic

/-! # Identifiers

What a caller names by an identifier: first the record with that id, then the first listed one of
that name or email. An identifier with an `@` in it is an email. Only the report that there is no
record with the id leads to the listing; every other failure stands. -/

namespace Entitlements.Directory

variable {σ : Type} (d : Directory σ)

/-- Whether an identifier is read as an email. -/
def isEmail (identifier : String) : Bool := identifier.toList.contains '@'

/-- The user with this uid or email. -/
def findUser (identifier : String) : Access σ (Option User) := do
  if isEmail identifier then d.userByEmail identifier
  else
    match ← (d.user identifier).orMissing with
    | some user => return some user
    | none => d.userByEmail identifier

/-- The group with this uuid or name. -/
def findGroup (identifier : String) : Access σ (Option Group) := do
  match ← (d.group identifier).orMissing with
  | some group => return some group
  | none => d.groupByName identifier

/-- The policy with this uuid or name, with its statement. -/
def findPolicy (identifier : String) : Access σ (Option Policy) := do
  match ← (d.policy identifier).orMissing with
  | some policy => return some policy
  | none =>
    match ← d.policyByName identifier with
    | some policy =>
      if policy.statementQuery.isNone then return some (← d.policy policy.uuid)
      else return some policy
    | none => return none

end Entitlements.Directory
