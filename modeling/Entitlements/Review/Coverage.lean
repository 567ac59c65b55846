import Entitlements.Review.Grants

/-! # Coverage matrices

Who has which permissions, for a whole account: rows are policies or groups, columns are the keys
`EFFECT:action` of all declarations met, in increasing order. Rows keep the order of the listing,
and declarations that deny count like those that allow. -/

namespace Entitlements

/-- What the rows of a matrix are. -/
inductive MatrixKind where
  | policy
  | group
  deriving DecidableEq, Repr

/-- The name of the kind. -/
def MatrixKind.name : MatrixKind → String
  | policy => "policy"
  | group => "group"

/-- The kind of this name. -/
def MatrixKind.ofName? (s : String) : Option MatrixKind :=
  if s = "policy" then some policy else if s = "group" then some group else none

/-- A row of a matrix. -/
structure MatrixRow where
  entityName : String
  entityId : String
  /-- A flag for every column. -/
  cells : List (String × Bool)
  deriving DecidableEq, Repr

/-- Whether the row is flagged under a key. -/
def MatrixRow.has (r : MatrixRow) (key : String) : Bool := (r.cells.lookup key).getD false

/-- A policy or group, and the keys that it has. -/
structure CoveredEntity where
  name : String
  id : String
  keys : KeySet
  deriving DecidableEq

/-- Who has which permissions. -/
structure CoverageMatrix where
  kind : MatrixKind
  /-- The columns. -/
  permissions : List String
  /-- The names of the rows. -/
  entities : List String
  rows : List MatrixRow
  entityCount : Nat
  permissionCount : Nat
  deriving DecidableEq, Repr

/-- The keys that some entity has. -/
def columnsOf (entities : List CoveredEntity) : KeySet := .ofList (entities.flatMap (·.keys.toList))

/-- The row of an entity. -/
def CoveredEntity.row (e : CoveredEntity) (columns : KeySet) : MatrixRow :=
  ⟨e.name, e.id, columns.toList.map fun key => (key, decide (key ∈ e.keys))⟩

/-- The matrix of these entities. -/
def CoverageMatrix.build (kind : MatrixKind) (entities : List CoveredEntity) : CoverageMatrix :=
  let columns := columnsOf entities
  { kind
    permissions := columns.toList
    entities := entities.map (·.name)
    rows := entities.map (·.row columns)
    entityCount := entities.length
    permissionCount := columns.size }

/-- The keys of the declarations of a statement. -/
def keysOf (statement : String) : List String := (parseStatement statement).map (·.key)

namespace Directory

variable {σ : Type} (d : Directory σ)

/-- Which policy has which permissions. The listing may leave statements out, so every policy is
asked for once more. -/
def policyMatrix : Access σ CoverageMatrix := do
  let entities ← (← d.policies).mapM fun policy => do
    let statement := (← d.policy policy.uuid).statement
    return (⟨policy.name, policy.uuid, .ofList (keysOf statement)⟩ : CoveredEntity)
  return .build .policy entities

/-- Which group has which permissions. -/
def groupMatrix : Access σ CoverageMatrix := do
  let entities ← (← d.groups).mapM fun group => do
    let bound ← d.boundPolicies group.uuid
    let keys := bound.flatMap fun b => keysOf b.policy.statement
    return (⟨group.name, group.uuid, .ofList keys⟩ : CoveredEntity)
  return .build .group entities

end Directory

/-! ### Wire forms -/

open Json

instance : Wire MatrixKind := ⟨fun k => .str k.name, fun j => j.variant? >>= MatrixKind.ofName?⟩

/-- The fields of a row that stand beside its cells. -/
def rowFields : List FieldName := ["entity_name", "entity_id"]

/-- The cells of a row: all entries that are not fields of its own. -/
def cellsOf? (entries : List (String × Json)) : Option (List (String × Bool)) :=
  (entries.filter fun e => !rowFields.any (·.accepts e.1)).mapM fun e =>
    return (e.1, ← asBool? e.2)

/-- A row is one flat object, its cells beside its fields. -/
instance : Wire MatrixRow where
  toJson r := .obj ([("entity_name", .str r.entityName), ("entity_id", .str r.entityId)]
    ++ r.cells.map fun c => (c.1, .bool c.2))
  ofJson?
    | .obj entries => do
      let f : Fields := ⟨false, ← namedFields? rowFields entries⟩
      return {
        entityName := ← f.required "entity_name" asString?
        entityId := ← f.required "entity_id" asString?
        cells := sortEntries (← cellsOf? entries) }
    | _ => none

instance : Wire CoverageMatrix where
  toJson m := .obj [("kind", toJson m.kind), ("permissions", toJson m.permissions),
    ("entities", toJson m.entities), ("rows", toJson m.rows),
    ("entity_count", .ofNat m.entityCount), ("permission_count", .ofNat m.permissionCount)]
  ofJson? j := do
    let f ← j.fields? ["kind", "permissions", "entities", "rows", "entity_count",
      "permission_count"]
    return {
      kind := ← f.required "kind" ofJson?
      permissions := ← f.required "permissions" ofJson?
      entities := ← f.required "entities" ofJson?
      rows := ← f.required "rows" ofJson?
      entityCount := ← f.required "entity_count" (asNat? 64)
      permissionCount := ← f.required "permission_count" (asNat? 64) }

end Entitlements
