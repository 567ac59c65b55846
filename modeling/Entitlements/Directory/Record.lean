import Entitlements.Json.Record

/-! # Records of an account

Groups, users, policies and bindings as a directory returns them, with their wire forms. Whatever
the wire form leaves out is empty or absent. -/

namespace Entitlements

/-- A group of users. -/
structure Group where
  uuid : String
  name : String
  description : Option String := none
  /-- Who maintains the group, such as `LOCAL` or `SCIM`. -/
  owner : Option String := none
  deriving DecidableEq, Repr

/-- A user of the account. -/
structure User where
  uid : String
  email : String
  name : Option String := none
  surname : Option String := none
  deriving DecidableEq, Repr

/-- A policy. Listings may leave its statement out. -/
structure Policy where
  uuid : String
  name : String
  description : Option String := none
  statementQuery : Option String := none
  deriving DecidableEq, Repr

/-- The statement, empty when there is none. -/
def Policy.statement (p : Policy) : String := p.statementQuery.getD ""

/-- The policy as listings show it. -/
def Policy.withoutStatement (p : Policy) : Policy := { p with statementQuery := none }

/-- A policy bound to a group at some level. -/
structure Binding where
  policyUuid : String
  groupUuid : String
  /-- What narrows the policy's reach. -/
  boundaries : List String := []
  levelType : String := "account"
  levelId : String := ""
  deriving DecidableEq, Repr

/-- The boundaries as one text, if there are any. -/
def Binding.boundary (b : Binding) : Option String :=
  match b.boundaries with
  | [] => none
  | bs => some (", ".intercalate bs)

/-- The kinds of entities whose permissions are resolved. -/
inductive EntityType where
  | user
  | group
  deriving DecidableEq, Repr

/-- The name of the kind. -/
def EntityType.name : EntityType → String
  | user => "user"
  | group => "group"

/-- The kind of this name. -/
def EntityType.ofName? (s : String) : Option EntityType :=
  if s = "user" then some user else if s = "group" then some group else none

/-- What the platform is asked to resolve. -/
structure EffectivePermissionsQuery where
  entityId : String
  entityType : EntityType
  levelType : String
  levelId : String
  /-- The services to restrict the answer to; all when empty. -/
  services : List String
  deriving DecidableEq, Repr

/-- One page of what the platform resolves; its items are of free form. -/
structure EffectivePermissionsPage where
  items : List Json
  /-- The number of items on all pages, when it is reported. -/
  total : Option Nat
  deriving DecidableEq, Repr

/-! ### Wire forms -/

open Json in
instance : Wire Group where
  toJson g := .obj ([("uuid", .str g.uuid), ("name", .str g.name)]
    ++ entryOfSome "description" .str g.description ++ entryOfSome "owner" .str g.owner)
  ofJson? j := do
    let f ← j.fields? ["uuid", "name", "description", "owner"]
    return {
      uuid := ← f.orDefault "uuid" asString? ""
      name := ← f.orDefault "name" asString? ""
      description := ← f.optional "description" asString?
      owner := ← f.optional "owner" asString? }

open Json in
instance : Wire User where
  toJson u := .obj ([("uid", .str u.uid), ("email", .str u.email)]
    ++ entryOfSome "name" .str u.name ++ entryOfSome "surname" .str u.surname)
  ofJson? j := do
    let f ← j.fields? ["uid", "email", "name", "surname"]
    return {
      uid := ← f.orDefault "uid" asString? ""
      email := ← f.orDefault "email" asString? ""
      name := ← f.optional "name" asString?
      surname := ← f.optional "surname" asString? }

open Json in
instance : Wire Policy where
  toJson p := .obj ([("uuid", .str p.uuid), ("name", .str p.name)]
    ++ entryOfSome "description" .str p.description
    ++ entryOfSome "statementQuery" .str p.statementQuery)
  ofJson? j := do
    let f ← j.fields? ["uuid", "name", "description", "statementQuery"]
    return {
      uuid := ← f.orDefault "uuid" asString? ""
      name := ← f.orDefault "name" asString? ""
      description := ← f.optional "description" asString?
      statementQuery := ← f.optional "statementQuery" asString? }

open Json in
instance : Wire Binding where
  toJson b := .obj [("policyUuid", .str b.policyUuid), ("groupUuid", .str b.groupUuid),
    ("boundaries", toJson b.boundaries), ("levelType", .str b.levelType),
    ("levelId", .str b.levelId)]
  ofJson? j := do
    let f ← j.fields? ["policyUuid", "groupUuid", "boundaries", "levelType", "levelId"]
    return {
      policyUuid := ← f.orDefault "policyUuid" asString? ""
      groupUuid := ← f.orDefault "groupUuid" asString? ""
      boundaries := ← f.orDefault "boundaries" (asList? asString?) []
      levelType := ← f.orDefault "levelType" asString? ""
      levelId := ← f.orDefault "levelId" asString? "" }

instance : Wire EntityType := ⟨fun t => .str t.name, fun j => j.variant? >>= EntityType.ofName?⟩

/-- The items stand under `effectivePermissions`, or under `items` when that is missing. -/
instance : Wire EffectivePermissionsPage where
  toJson p := .obj (("effectivePermissions", toJson p.items)
    :: Json.entryOfSome "total" .ofNat p.total)
  ofJson? j := do
    let f ← j.fields? ["effectivePermissions", "items", "total"]
    let permissions ← f.optional "effectivePermissions" (ofJson? : Json → Option (List Json))
    let items ← f.optional "items" (ofJson? : Json → Option (List Json))
    let total ← f.optional "total" (Json.asNat? 64)
    return ⟨(permissions.or items).getD [], total⟩

end Entitlements
