import Entitlements.Statement.Effect

/-! # Permission statements

One declaration of a policy: an effect on one action, with the conditions of its clause. Two
declarations have the same `key` exactly when effect and action agree. -/

namespace Entitlements

/-- The actions with a description of their own. -/
def actionDescriptions : List (String × String) :=
  [ ("settings:objects:read", "Read settings objects"),
    ("settings:objects:write", "Write settings objects"),
    ("settings:schemas:read", "Read settings schemas"),
    ("environment:roles:manage", "Manage environment roles"),
    ("account:users:read", "Read account users"),
    ("account:users:write", "Write account users"),
    ("account:groups:read", "Read account groups"),
    ("account:groups:write", "Write account groups"),
    ("account:policies:read", "Read account policies"),
    ("account:policies:write", "Write account policies") ]

/-- The description of a well-known action. -/
def describeAction? (action : String) : Option String := actionDescriptions.lookup action

/-- A permission declared by a clause. -/
structure PermissionStatement where
  /-- Whether the action is granted or denied. -/
  effect : Effect
  /-- The action, such as `settings:objects:read`. -/
  action : String
  /-- The conditions of the clause, shared by all its actions. -/
  conditions : Option String
  /-- The description of a well-known action, else the action. -/
  description : String
  deriving DecidableEq, Repr

namespace PermissionStatement

/-- The declaration of `action` with these conditions and its standard description. -/
def declare (effect : Effect) (action : String) (conditions : Option String) :
    PermissionStatement :=
  ⟨effect, action, conditions, (describeAction? action).getD action⟩

/-- What declarations are aggregated under: `EFFECT:action`. -/
def key (p : PermissionStatement) : String := p.effect.keyword ++ ":" ++ p.action

/-- Whether conditions restrict the declaration. -/
def isConditional (p : PermissionStatement) : Bool := p.conditions.isSome

end PermissionStatement

end Entitlements
