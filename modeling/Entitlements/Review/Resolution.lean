import Entitlements.Review.Lookup
import Entitlements.Review.Outcome

/-! # Permissions resolved by the platform

Instead of following bindings, a caller can ask the platform which permissions an entity has in
effect. The answer comes in pages (`Directory.fetchPages`); every failure of a directory is reported
as an outcome, and a page that fails discards the pages before it. -/

namespace Entitlements

/-- How many items a page is asked for. -/
def pageSize : Nat := 100

/-- The number of pages that can be numbered with 32 bits. -/
def maxPages : Nat := Nat.pow 2 32 - 1

/-- What is to be resolved. -/
structure ResolveRequest where
  /-- The uid or email of a user, or the uuid or name of a group. -/
  entityId : String
  entityType : EntityType
  levelType : String := "account"
  /-- The level; the account of the directory if none is given. -/
  levelId : Option String := none
  /-- The services to restrict the answer to; all when empty. -/
  services : List String := []
  /-- Whether all pages are asked for, or the first one only. -/
  allPages : Bool := true
  deriving DecidableEq, Repr

/-- What the platform has resolved. -/
structure EffectivePermissionsReport where
  entityId : String
  entityType : EntityType
  levelType : String
  levelId : String
  /-- The items of the platform, of free form. -/
  items : List Json
  /-- The number of items when all pages were asked for, else the total that was reported. -/
  total : Nat
  deriving DecidableEq, Repr

/-- The total that a page reports; its own items count when it reports none. -/
def EffectivePermissionsPage.reportedTotal (p : EffectivePermissionsPage) : Nat :=
  p.total.getD p.items.length

/-- How a missing entity is called. -/
def EntityType.title : EntityType → String
  | user => "User"
  | group => "Group"

namespace Directory

variable {σ : Type} (d : Directory σ)

/-- The id of the entity: users are looked up by email only, groups by uuid or name. -/
def canonicalId (entityType : EntityType) (identifier : String) : Access σ (Option String) := do
  match entityType with
  | .user =>
    if isEmail identifier then return (← d.userByEmail identifier).map (·.uid)
    else return some identifier
  | .group => return (← d.findGroup identifier).map (·.uuid)

/-- The items of the first page, and the total that it reports. -/
def fetchFirst (query : EffectivePermissionsQuery) : Access σ (List Json × Nat) := do
  let page ← d.effectivePermissions query 1 pageSize
  return (page.items, page.reportedTotal)

/-- The items of the pages from number `page` on, behind those `received` so far. A page is the
last one when there are as many items as it reports in total, or when it is empty. At most `more`
pages are asked for. -/
def fetchPages (query : EffectivePermissionsQuery) :
    (more page : Nat) → (received : List Json) → Access σ (List Json)
  | 0, _, _ => throw (.abort .pageOverflow)
  | more + 1, page, received => do
    let answer ← d.effectivePermissions query page pageSize
    let received := received ++ answer.items
    if answer.reportedTotal ≤ received.length || answer.items.isEmpty then return received
    else fetchPages query more (page + 1) received

/-- The items of all pages, and their number. -/
def fetchAll (query : EffectivePermissionsQuery) : Access σ (List Json × Nat) := do
  let items ← d.fetchPages query maxPages 1 []
  return (items, items.length)

/-- What the platform resolves for an entity that exists. -/
def resolveQuery (query : EffectivePermissionsQuery) (allPages : Bool) :
    Access σ EffectivePermissionsReport := do
  let (items, total) ← if allPages then d.fetchAll query else d.fetchFirst query
  return ⟨query.entityId, query.entityType, query.levelType, query.levelId, items, total⟩

/-- What the platform resolves for an entity; no error of the directory stops the caller. -/
def resolve (request : ResolveRequest) : Access σ (Outcome EffectivePermissionsReport) := do
  match ← (d.canonicalId request.entityType request.entityId).reported with
  | .error e => return .failed (.ofDirectoryError e)
  | .ok none => return .notFound request.entityType.title request.entityId
  | .ok (some entityId) =>
    let query : EffectivePermissionsQuery :=
      ⟨entityId, request.entityType, request.levelType, request.levelId.getD d.account,
        request.services⟩
    return .ofExcept (← (d.resolveQuery query request.allPages).reported)

end Directory

/-! ### Wire form -/

open Json in
instance : Wire EffectivePermissionsReport where
  toJson r := .obj [("entityId", .str r.entityId), ("entityType", toJson r.entityType),
    ("levelType", .str r.levelType), ("levelId", .str r.levelId),
    ("effectivePermissions", toJson r.items), ("total", .ofNat r.total)]
  ofJson? j := do
    let f ← j.fields? ["entityId", "entityType", "levelType", "levelId", "effectivePermissions",
      "total"]
    return {
      entityId := ← f.required "entityId" asString?
      entityType := ← f.required "entityType" ofJson?
      levelType := ← f.required "levelType" asString?
      levelId := ← f.required "levelId" asString?
      items := ← f.required "effectivePermissions" ofJson?
      total := ← f.required "total" (asNat? 64) }

end Entitlements
