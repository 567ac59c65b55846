import Entitlements.Review.Grants

/-! # Responsibility matrices

RACI charts: for every activity of a template, the role that each group plays in it. A group plays
the role of an activity when it holds any of the permissions that the activity needs. Groups of one
name share a column and their grants (`Directory.responsibilityMatrix`). -/

namespace Entitlements

/-- A role in an activity. -/
inductive RaciRole where
  | responsible
  | accountable
  | consulted
  | informed
  deriving DecidableEq, Repr

namespace RaciRole

/-- All roles. -/
def all : List RaciRole := [responsible, accountable, consulted, informed]

/-- The name of a role. -/
def name : RaciRole → String
  | responsible => "Responsible"
  | accountable => "Accountable"
  | consulted => "Consulted"
  | informed => "Informed"

/-- The letter of a role. -/
def letter : RaciRole → String
  | responsible => "R"
  | accountable => "A"
  | consulted => "C"
  | informed => "I"

/-- The role with this letter. -/
def ofLetter? (s : String) : Option RaciRole := all.find? (·.letter == s)

end RaciRole

/-! ### Templates -/

/-- An activity of a template. -/
structure GovernanceActivity where
  name : String
  category : Option String
  /-- Whoever holds any of these plays the role. -/
  requiredPermissions : List String
  role : RaciRole
  deriving DecidableEq, Repr

/-- A named list of activities. -/
structure RaciTemplate where
  name : String
  description : String
  activities : List GovernanceActivity
  deriving DecidableEq, Repr

namespace RaciTemplate

/-- The activities that every account has. -/
def basic : RaciTemplate where
  name := "basic"
  description := "Basic RACI matrix for common IAM activities"
  activities :=
    [ ⟨"View Settings", none, ["settings:objects:read"], .informed⟩,
      ⟨"Modify Settings", none, ["settings:objects:write"], .responsible⟩,
      ⟨"Manage Users", none, ["account:users:write"], .accountable⟩,
      ⟨"Manage Groups", none, ["account:groups:write"], .accountable⟩,
      ⟨"Manage Policies", none, ["account:policies:write"], .accountable⟩,
      ⟨"View Users", none, ["account:users:read"], .consulted⟩,
      ⟨"View Groups", none, ["account:groups:read"], .consulted⟩ ]

/-- The activities of large accounts, by category. -/
def enterprise : RaciTemplate where
  name := "enterprise"
  description := "Enterprise RACI matrix with detailed activities"
  activities :=
    let configuration := some "Configuration"
    let userManagement := some "User Management"
    let accessControl := some "Access Control"
    let monitoring := some "Monitoring"
    [ ⟨"View Configuration", configuration, ["settings:objects:read", "settings:schemas:read"],
        .informed⟩,
      ⟨"Modify Configuration", configuration, ["settings:objects:write"], .responsible⟩,
      ⟨"View Users", userManagement, ["account:users:read"], .consulted⟩,
      ⟨"Create/Delete Users", userManagement, ["account:users:write"], .accountable⟩,
      ⟨"Manage User Groups", userManagement, ["account:groups:write"], .responsible⟩,
      ⟨"View Policies", accessControl, ["account:policies:read"], .consulted⟩,
      ⟨"Create/Modify Policies", accessControl, ["account:policies:write"], .accountable⟩,
      ⟨"Manage Role Assignments", accessControl, ["environment:roles:manage"], .accountable⟩,
      ⟨"View Audit Logs", monitoring, ["account:audit-log:read"], .consulted⟩,
      ⟨"Generate Reports", monitoring, ["account:users:read", "account:groups:read"], .informed⟩ ]

/-- The templates there are. -/
def all : List RaciTemplate := [basic, enterprise]

/-- The template of this name. -/
def find? (name : String) : Option RaciTemplate := all.find? (·.name == name)

end RaciTemplate

/-- There is no template of this name. -/
structure UnknownTemplate where
  name : String
  /-- The names of the templates there are. -/
  available : List String
  deriving DecidableEq, Repr

/-- The error in words. -/
def UnknownTemplate.message (e : UnknownTemplate) : String :=
  "Unknown template: " ++ e.name ++ " (available: " ++ ", ".intercalate e.available ++ ")"

/-! ### Matrices -/

/-- The roles that the groups play in an activity. -/
structure RaciRow where
  activity : String
  category : Option String
  requiredPermissions : List String
  /-- The name of each group, with its role if it plays one. -/
  roles : List (String × Option RaciRole)
  deriving DecidableEq, Repr

/-- The role of the first column of this name. -/
def RaciRow.role? (r : RaciRow) (group : String) : Option RaciRole := (r.roles.lookup group).join

/-- The roles that the groups of an account play. -/
structure GovernanceMatrix where
  template : String
  description : String
  activities : List String
  /-- The names of the groups, in the order of the listing. -/
  entities : List String
  rows : List RaciRow
  deriving DecidableEq, Repr

/-- The columns with what a group of some name holds: it is added to the column of that name, or to
a new one behind the others. -/
def mergeColumn (columns : List (String × HeldPermissions)) (name : String)
    (held : HeldPermissions) : List (String × HeldPermissions) :=
  match columns with
  | [] => [(name, HeldPermissions.empty.merge held)]
  | (n, h) :: rest =>
    if n = name then (n, h.merge held) :: rest else (n, h) :: mergeColumn rest name held

/-- The row of an activity. -/
def GovernanceActivity.row (a : GovernanceActivity) (columns : List (String × HeldPermissions)) :
    RaciRow where
  activity := a.name
  category := a.category
  requiredPermissions := a.requiredPermissions
  roles := columns.map fun (name, held) =>
    (name, if held.satisfies a.requiredPermissions then some a.role else none)

/-- The matrix of groups that hold these permissions. -/
def RaciTemplate.fill (t : RaciTemplate) (groups : List (String × HeldPermissions)) :
    GovernanceMatrix :=
  let columns := groups.foldl (fun columns (name, held) => mergeColumn columns name held) []
  { template := t.name
    description := t.description
    activities := t.activities.map (·.name)
    entities := columns.map (·.1)
    rows := t.activities.map (·.row columns) }

/-- The roles of the account's groups in the activities of a template. No call is made for a
template that does not exist. -/
def Directory.responsibilityMatrix {σ : Type} (d : Directory σ) (templateName : String) :
    Access σ (Except UnknownTemplate GovernanceMatrix) := do
  match RaciTemplate.find? templateName with
  | none => return .error ⟨templateName, RaciTemplate.all.map (·.name)⟩
  | some template =>
    let groups ← (← d.groups).mapM fun group => do
      return (group.name, (← d.collectGroup group).allowedActions)
    return .ok (template.fill groups)

/-! ### Wire forms -/

open Json

instance : Wire RaciRole := ⟨fun r => .str r.letter, fun j => j.variant? >>= RaciRole.ofLetter?⟩

/-- The fields of a row that its columns stand beside. -/
def raciRowFields : List String := ["activity", "category", "required_permissions"]

/-- What marks a column whose group would be taken for a field of the row. -/
def columnMark : String := "group:"

/-- The entry under which the column of a group stands: its name, with the mark if the name is that
of a field or carries the mark already. -/
def columnKey (group : String) : String :=
  if raciRowFields.contains group || columnMark.toList.isPrefixOf group.toList then
    columnMark ++ group
  else group

/-- The group whose column stands under an entry: one mark is taken off. -/
def columnGroup (key : String) : String :=
  if columnMark.toList.isPrefixOf key.toList then
    .ofList (key.toList.drop columnMark.toList.length)
  else key

/-- The entries of a row read so far. -/
structure RaciRowEntries where
  activity : Option String := none
  category : Option String := none
  requiredPermissions : Option (List String) := none
  roles : List (String × Option RaciRole) := []

/-- Reads one more entry of a row: a field that is given again counts anew, and every other entry
is a column. -/
def RaciRowEntries.read? (r : RaciRowEntries) (e : String × Json) : Option RaciRowEntries := do
  match e.1 with
  | "activity" => return { r with activity := some (← asString? e.2) }
  | "category" => return { r with category := ← orNull? asString? e.2 }
  | "required_permissions" =>
    return { r with requiredPermissions := some (← asList? asString? e.2) }
  | key => return { r with roles := r.roles ++ [(columnGroup key, ← orNull? ofJson? e.2)] }

/-- A row is one flat object, its columns behind its fields. -/
instance : Wire RaciRow where
  toJson r := .obj ([("activity", .str r.activity)] ++ entryOfSome "category" .str r.category
    ++ [("required_permissions", toJson r.requiredPermissions)]
    ++ r.roles.map fun c => (columnKey c.1, c.2.elim .null toJson))
  ofJson?
    | .obj entries => do
      let r ← entries.foldlM RaciRowEntries.read? {}
      return ⟨← r.activity, r.category, ← r.requiredPermissions, r.roles⟩
    | _ => none

instance : Wire GovernanceMatrix where
  toJson m := .obj [("template", .str m.template), ("description", .str m.description),
    ("activities", toJson m.activities), ("entities", toJson m.entities), ("rows", toJson m.rows)]
  ofJson? j := do
    let f ← j.fields? ["template", "description", "activities", "entities", "rows"]
    return {
      template := ← f.required "template" asString?
      description := ← f.required "description" asString?
      activities := ← f.required "activities" ofJson?
      entities := ← f.required "entities" ofJson?
      rows := ← f.required "rows" ofJson? }

/-- An activity as templates show it. -/
def GovernanceActivity.toJson (a : GovernanceActivity) : Json :=
  .obj ([("name", .str a.name)] ++ entryOfSome "category" .str a.category
    ++ [("required_permissions", Wire.toJson a.requiredPermissions), ("role", Wire.toJson a.role)])

/-- A template with its activities. -/
def RaciTemplate.toJson (t : RaciTemplate) : Json :=
  .obj [("name", .str t.name), ("description", .str t.description),
    ("activities", .arr (t.activities.map (·.toJson)))]

end Entitlements
