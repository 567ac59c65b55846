import Entitlements.Text.KeySet

/-! # Held permissions

The set of actions somebody holds, and whether it satisfies a requirement. A `*` in a pattern is
left out and the rest is used as the start of a string; there is no other wildcard. Main
definition: `HeldPermissions.satisfies`. -/

namespace Entitlements

/-- Whether a pattern has a `*` in it. -/
def hasStar (pattern : String) : Bool := pattern.toList.contains '*'

/-- The characters of a pattern without its `*`s. -/
def stem (pattern : String) : List Char := pattern.toList.filter (· != '*')

/-- Whether `s` starts with the stem of `pattern`, and `pattern` has a `*`. -/
def coversByStar (pattern s : String) : Bool :=
  hasStar pattern && (stem pattern).isPrefixOf s.toList

/-- Whether one held permission meets one required pattern: they are equal, or one of them has a
`*` and its stem starts the other. -/
def meets (held required : String) : Bool :=
  held == required || coversByStar required held || coversByStar held required

/-- The set of actions somebody holds. -/
structure HeldPermissions where
  actions : KeySet
  deriving DecidableEq

namespace HeldPermissions

/-- Nothing held. -/
def empty : HeldPermissions := ⟨∅⟩

/-- The actions of a list. -/
def ofList (actions : List String) : HeldPermissions := ⟨.ofList actions⟩

/-- With one more action. -/
def insert (h : HeldPermissions) (action : String) : HeldPermissions := ⟨h.actions.insert action⟩

/-- With the actions of another set. -/
def merge (h other : HeldPermissions) : HeldPermissions := ⟨h.actions.union other.actions⟩

/-- Whether an action is held verbatim. -/
def contains (h : HeldPermissions) (action : String) : Bool := decide (action ∈ h.actions)

/-- Whether some held permission meets some of the required patterns. -/
def satisfies (h : HeldPermissions) (required : List String) : Bool :=
  required.any fun r => h.actions.toList.any fun p => meets p r

/-- The number of actions held. -/
def size (h : HeldPermissions) : Nat := h.actions.size

/-- The actions in increasing order. -/
def sorted (h : HeldPermissions) : List String := h.actions.toList

end HeldPermissions

end Entitlements
