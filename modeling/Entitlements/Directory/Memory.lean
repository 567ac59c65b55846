import Entitlements.Directory.Basic

/-! # Directories in memory

A directory whose records are at hand, kept in the order in which they were given. Its state is the
number of calls made so far. Calls can be set to fail: every call of an operation, or one page of
the resolved permissions. -/

namespace Entitlements

/-- The calls that a directory answers. -/
inductive Operation where
  | listGroups
  | getGroup
  | listUsers
  | getUser
  | getUserGroups
  | listBindings
  | listBindingsForGroup
  | listPolicies
  | getPolicy
  | getEffectivePermissions
  deriving DecidableEq, Repr

namespace Operation

/-- All operations. -/
def all : List Operation :=
  [listGroups, getGroup, listUsers, getUser, getUserGroups, listBindings, listBindingsForGroup,
    listPolicies, getPolicy, getEffectivePermissions]

/-- The name of an operation. -/
def name : Operation → String
  | listGroups => "list_groups"
  | getGroup => "get_group"
  | listUsers => "list_users"
  | getUser => "get_user"
  | getUserGroups => "get_user_groups"
  | listBindings => "list_bindings"
  | listBindingsForGroup => "list_bindings_for_group"
  | listPolicies => "list_policies"
  | getPolicy => "get_policy"
  | getEffectivePermissions => "get_effective_permissions"

/-- The kind of resource that an operation reads. -/
def resource : Operation → String
  | listGroups | getGroup => "group"
  | listUsers | getUser | getUserGroups => "user"
  | listBindings | listBindingsForGroup => "binding"
  | listPolicies | getPolicy => "policy"
  | getEffectivePermissions => "effective permissions"

/-- The operation of this name. -/
def ofName? (s : String) : Option Operation := all.find? (·.name == s)

end Operation

/-- The records of an account, and which calls fail. -/
structure MemoryDirectory where
  account : String
  groups : List Group := []
  users : List User := []
  policies : List Policy := []
  bindings : List Binding := []
  /-- Pairs of a user's uid and a group's uuid. -/
  memberships : List (String × String) := []
  /-- The permissions that the platform resolves for an entity. -/
  resolutions : List (String × List Json) := []
  /-- The operations that fail, each with its status. -/
  failures : List (Operation × UInt16) := []
  /-- The pages that fail, each with its status. -/
  pageFailures : List (Nat × UInt16) := []

namespace MemoryDirectory

variable (m : MemoryDirectory)

/-- With one more binding; a binding without a level belongs to the account. -/
def addBinding (b : Binding) : MemoryDirectory :=
  { m with bindings :=
      m.bindings ++ [if b.levelId.isEmpty then { b with levelId := m.account } else b] }

/-- Counts a call, and fails if its operation is set to. -/
def begin (op : Operation) : Access Nat Unit := do
  modify (· + 1)
  match m.failures.lookup op with
  | some status => .fail (.ofStatus status op.resource op.name "" "injected failure")
  | none => pure ()

/-- The first record found, or the report that there is none with this identifier. -/
def found {α : Type} (resource id : String) : Option α → Access Nat α
  | some a => pure a
  | none => .fail (.notFound resource id)

/-- The groups that the memberships of a user lead to; missing groups are left out. -/
def groupsOf (uid : String) : List Group :=
  (m.memberships.filter (·.1 == uid)).filterMap fun p => m.groups.find? (·.uuid == p.2)

/-- The permissions resolved for an entity. -/
def resolved (entityId : String) : List Json := (m.resolutions.lookup entityId).getD []

/-- The number of items before a page; pages count from one, and page zero is the first. A page
has room for one item at least. -/
def pageStart (page size : Nat) : Nat := (max page 1 - 1) * max size 1

/-- The items of a page. -/
def pageOf (items : List Json) (page size : Nat) : List Json :=
  (items.drop (pageStart page size)).take (max size 1)

/-- The directory of these records; its state counts the calls. -/
def directory : Directory Nat where
  account := m.account
  groups := do
    m.begin .listGroups
    return m.groups
  group uuid := do
    m.begin .getGroup
    found "group" uuid (m.groups.find? (·.uuid == uuid))
  users := do
    m.begin .listUsers
    return m.users
  user uid := do
    m.begin .getUser
    found "user" uid (m.users.find? (·.uid == uid))
  groupsOfUser uid := do
    m.begin .getUserGroups
    if m.users.any (·.uid == uid) then return m.groupsOf uid
    else .fail (.notFound "user" uid)
  bindings := do
    m.begin .listBindings
    return m.bindings
  bindingsOfGroup uuid := do
    m.begin .listBindingsForGroup
    return m.bindings.filter (·.groupUuid == uuid)
  policies := do
    m.begin .listPolicies
    return m.policies.map Policy.withoutStatement
  policy uuid := do
    m.begin .getPolicy
    found "policy" uuid (m.policies.find? (·.uuid == uuid))
  effectivePermissions query page size := do
    m.begin .getEffectivePermissions
    match m.pageFailures.lookup page with
    | some status =>
      .fail (.ofStatus status "effective permissions" "resolve" query.entityId
        ("page " ++ toString page ++ " unavailable"))
    | none =>
      let items := m.resolved query.entityId
      return ⟨pageOf items page size, some items.length⟩

end MemoryDirectory

end Entitlements
