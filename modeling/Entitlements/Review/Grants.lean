import Entitlements.Review.Lookup
import Entitlements.Review.Outcome
import Entitlements.Statement.Clause
import Entitlements.Statement.Json

/-! # Effective permissions

What a user or a group is granted, and where each grant comes from. A user's grants come from the
groups of the user, a group's from the policies bound to it; every statement is parsed, and the
declarations that allow something are gathered under their keys (`PermissionIndex`), with a source
for each. Declarations that deny are reported with the bindings, but not held against the grants.
Main definitions: `Directory.resolveUser`, `Directory.resolveGroup`, `Directory.collectGroup`. -/

namespace Entitlements

/-- Where a grant comes from. -/
structure PermissionSource where
  /-- The name of the group; only given for the grants of users. -/
  group : Option String
  /-- The name of the policy. -/
  policy : String
  /-- What narrows the binding. -/
  boundary : Option String
  deriving DecidableEq, Repr

/-- A grant with its sources. -/
structure EffectivePermission where
  effect : Effect
  action : String
  description : String
  /-- The sources, in the order in which they were met. -/
  sources : List PermissionSource
  deriving DecidableEq, Repr

/-- What grants are gathered under: `EFFECT:action`. -/
def EffectivePermission.key (p : EffectivePermission) : String :=
  p.effect.keyword ++ ":" ++ p.action

/-! ### The index -/

/-- Grants in the order in which their keys were first met. -/
structure PermissionIndex where
  entries : List EffectivePermission
  /-- Where the entry with a key stands. -/
  positions : List (String × Nat)
  deriving DecidableEq, Repr

namespace PermissionIndex

/-- The index without grants. -/
def empty : PermissionIndex := ⟨[], []⟩

/-- With one more source for a declaration: it goes to the entry with the same key, or to a new
one behind the others. -/
def add (x : PermissionIndex) (p : PermissionStatement) (source : PermissionSource) :
    PermissionIndex :=
  match x.positions.lookup p.key with
  | some i =>
    { x with entries := x.entries.modify i fun e => { e with sources := e.sources ++ [source] } }
  | none =>
    { entries := x.entries ++ [⟨p.effect, p.action, p.description, [source]⟩]
      positions := (p.key, x.entries.length) :: x.positions }

/-- With the declarations of a statement that allow something, all from the same source. -/
def addGrants (x : PermissionIndex) (ps : List PermissionStatement) (source : PermissionSource) :
    PermissionIndex :=
  (ps.filter (·.effect.isAllow)).foldl (fun x p => x.add p source) x

end PermissionIndex

/-! ### Bindings with their policies -/

/-- A binding and the policy that it binds. -/
structure BoundPolicy where
  binding : Binding
  policy : Policy
  deriving DecidableEq, Repr

namespace BoundPolicy

/-- The declarations of the policy. -/
def permissions (b : BoundPolicy) : List PermissionStatement := parseStatement b.policy.statement

/-- What the policy's grants come from, for a group of some name or of none. -/
def source (b : BoundPolicy) (group : Option String) : PermissionSource :=
  ⟨group, b.policy.name, b.binding.boundary⟩

end BoundPolicy

/-- The grants of policies that were met one after the other. -/
def grantsOf (met : List (Option String × BoundPolicy)) : List EffectivePermission :=
  (met.foldl (fun x (group, b) => x.addGrants b.permissions (b.source group))
    PermissionIndex.empty).entries

/-- The bindings of a group, each with its policy. -/
def Directory.boundPolicies {σ : Type} (d : Directory σ) (groupUuid : String) :
    Access σ (List BoundPolicy) := do
  (← d.bindingsOfGroup groupUuid).mapM fun binding =>
    return ⟨binding, ← d.policy binding.policyUuid⟩

/-! ### Reports -/

/-- Who a report on a user is about. -/
structure UserRef where
  uid : String
  email : String
  deriving DecidableEq, Repr

/-- Which group a report is about. -/
structure GroupRef where
  uuid : String
  name : String
  deriving DecidableEq, Repr

/-- The identity of a user. -/
def User.ref (u : User) : UserRef := ⟨u.uid, u.email⟩

/-- The identity of a group. -/
def Group.ref (g : Group) : GroupRef := ⟨g.uuid, g.name⟩

/-- A binding that was met on the way from a user. -/
structure UserBinding where
  groupUuid : String
  groupName : String
  policyUuid : String
  policyName : String
  boundary : Option String
  /-- All declarations of the policy, also those that deny. -/
  permissions : List PermissionStatement
  deriving DecidableEq, Repr

/-- A binding of a group as a report on a user shows it. -/
def BoundPolicy.forUser (b : BoundPolicy) (g : Group) : UserBinding :=
  ⟨g.uuid, g.name, b.binding.policyUuid, b.policy.name, b.binding.boundary, b.permissions⟩

/-- What a user is granted. -/
structure UserEffectivePermissions where
  user : UserRef
  groups : List GroupRef
  groupCount : Nat
  bindings : List UserBinding
  bindingCount : Nat
  effectivePermissions : List EffectivePermission
  permissionCount : Nat
  deriving DecidableEq, Repr

/-- What a group is granted. -/
structure GroupEffectivePermissions where
  group : GroupRef
  bindings : List Binding
  bindingCount : Nat
  effectivePermissions : List EffectivePermission
  permissionCount : Nat
  deriving DecidableEq, Repr

/-- The report on a user whose groups have these bindings. -/
def UserEffectivePermissions.ofGroups (user : User) (groups : List (Group × List BoundPolicy)) :
    UserEffectivePermissions :=
  let met := groups.flatMap fun (g, bs) => bs.map fun b => (g, b)
  let bindings := met.map fun (g, b) => b.forUser g
  let grants := grantsOf (met.map fun (g, b) => (some g.name, b))
  { user := user.ref
    groups := groups.map (·.1.ref)
    groupCount := groups.length
    bindings
    bindingCount := bindings.length
    effectivePermissions := grants
    permissionCount := grants.length }

/-- The report on a group with these bindings. -/
def GroupEffectivePermissions.ofBindings (group : Group) (bs : List BoundPolicy) :
    GroupEffectivePermissions :=
  let grants := grantsOf (bs.map fun b => (none, b))
  { group := group.ref
    bindings := bs.map (·.binding)
    bindingCount := bs.length
    effectivePermissions := grants
    permissionCount := grants.length }

/-- The actions that the group is allowed. -/
def GroupEffectivePermissions.allowedActions (p : GroupEffectivePermissions) : HeldPermissions :=
  .ofList ((p.effectivePermissions.filter (·.effect.isAllow)).map (·.action))

namespace Directory

variable {σ : Type} (d : Directory σ)

/-- What a group is granted. -/
def collectGroup (group : Group) : Access σ GroupEffectivePermissions :=
  return .ofBindings group (← d.boundPolicies group.uuid)

/-- What the group with this uuid or name is granted. -/
def resolveGroup (identifier : String) : Access σ (Outcome GroupEffectivePermissions) := do
  match ← d.findGroup identifier with
  | some group => return .found (← d.collectGroup group)
  | none => return .notFound "Group" identifier

/-- What the user with this uid or email is granted. -/
def resolveUser (identifier : String) : Access σ (Outcome UserEffectivePermissions) := do
  match ← d.findUser identifier with
  | some user =>
    let groups ← d.groupsOfUser user.uid
    let bound ← groups.mapM fun group => return (group, ← d.boundPolicies group.uuid)
    return .found (.ofGroups user bound)
  | none => return .notFound "User" identifier

end Directory

/-! ### Wire forms -/

open Json

instance : Wire PermissionSource where
  toJson s := .obj (entryOfSome "group" .str s.group ++ [("policy", .str s.policy)]
    ++ entryOfSome "boundary" .str s.boundary)
  ofJson? j := do
    let f ← j.fields? ["group", "policy", "boundary"]
    return {
      group := ← f.optional "group" asString?
      policy := ← f.required "policy" asString?
      boundary := ← f.optional "boundary" asString? }

instance : Wire EffectivePermission where
  toJson p := .obj [("effect", toJson p.effect), ("action", .str p.action),
    ("description", .str p.description), ("sources", toJson p.sources)]
  ofJson? j := do
    let f ← j.fields? ["effect", "action", "description", "sources"]
    return {
      effect := ← f.required "effect" ofJson?
      action := ← f.required "action" asString?
      description := ← f.required "description" asString?
      sources := ← f.required "sources" ofJson? }

instance : Wire UserRef where
  toJson u := .obj [("uid", .str u.uid), ("email", .str u.email)]
  ofJson? j := do
    let f ← j.fields? ["uid", "email"]
    return ⟨← f.required "uid" asString?, ← f.required "email" asString?⟩

instance : Wire GroupRef where
  toJson g := .obj [("uuid", .str g.uuid), ("name", .str g.name)]
  ofJson? j := do
    let f ← j.fields? ["uuid", "name"]
    return ⟨← f.required "uuid" asString?, ← f.required "name" asString?⟩

instance : Wire UserBinding where
  toJson b := .obj ([("group_uuid", .str b.groupUuid), ("group_name", .str b.groupName),
    ("policy_uuid", .str b.policyUuid), ("policy_name", .str b.policyName)]
    ++ entryOfSome "boundary" .str b.boundary ++ [("permissions", toJson b.permissions)])
  ofJson? j := do
    let f ← j.fields? ["group_uuid", "group_name", "policy_uuid", "policy_name", "boundary",
      "permissions"]
    return {
      groupUuid := ← f.required "group_uuid" asString?
      groupName := ← f.required "group_name" asString?
      policyUuid := ← f.required "policy_uuid" asString?
      policyName := ← f.required "policy_name" asString?
      boundary := ← f.optional "boundary" asString?
      permissions := ← f.required "permissions" ofJson? }

instance : Wire UserEffectivePermissions where
  toJson p := .obj [("user", toJson p.user), ("groups", toJson p.groups),
    ("group_count", .ofNat p.groupCount), ("bindings", toJson p.bindings),
    ("binding_count", .ofNat p.bindingCount),
    ("effective_permissions", toJson p.effectivePermissions),
    ("permission_count", .ofNat p.permissionCount)]
  ofJson? j := do
    let f ← j.fields? ["user", "groups", "group_count", "bindings", "binding_count",
      "effective_permissions", "permission_count"]
    return {
      user := ← f.required "user" ofJson?
      groups := ← f.required "groups" ofJson?
      groupCount := ← f.required "group_count" (asNat? 64)
      bindings := ← f.required "bindings" ofJson?
      bindingCount := ← f.required "binding_count" (asNat? 64)
      effectivePermissions := ← f.required "effective_permissions" ofJson?
      permissionCount := ← f.required "permission_count" (asNat? 64) }

instance : Wire GroupEffectivePermissions where
  toJson p := .obj [("group", toJson p.group), ("bindings", toJson p.bindings),
    ("binding_count", .ofNat p.bindingCount),
    ("effective_permissions", toJson p.effectivePermissions),
    ("permission_count", .ofNat p.permissionCount)]
  ofJson? j := do
    let f ← j.fields? ["group", "bindings", "binding_count", "effective_permissions",
      "permission_count"]
    return {
      group := ← f.required "group" ofJson?
      bindings := ← f.required "bindings" ofJson?
      bindingCount := ← f.required "binding_count" (asNat? 64)
      effectivePermissions := ← f.required "effective_permissions" ofJson?
      permissionCount := ← f.required "permission_count" (asNat? 64) }

end Entitlements
