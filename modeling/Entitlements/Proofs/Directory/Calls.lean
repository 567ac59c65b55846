import Entitlements.Directory.Cached
import Entitlements.Proofs.Wire.RoundTrip

/-! # Calls that are remembered

The calls of a directory whose answers are kept, each with the type of its answer
(`CachedCall.Answer`, `Directory.ask`). No two of them have the same key
(`CachedCall.key_injective`). -/

namespace Entitlements

namespace CachedCall

/-- What a call gives when it succeeds. -/
@[reducible] def Answer : CachedCall → Type
  | groups | groupsOfUser _ => List Group
  | group _ => Group
  | users => List User
  | user _ => User
  | bindings | bindingsOfGroup _ => List Binding
  | policies => List Policy
  | policy _ => Policy

instance : (c : CachedCall) → Wire c.Answer
  | groups | groupsOfUser _ => inferInstanceAs (Wire (List Group))
  | group _ => inferInstanceAs (Wire Group)
  | users => inferInstanceAs (Wire (List User))
  | user _ => inferInstanceAs (Wire User)
  | bindings | bindingsOfGroup _ => inferInstanceAs (Wire (List Binding))
  | policies => inferInstanceAs (Wire (List Policy))
  | policy _ => inferInstanceAs (Wire Policy)

instance : (c : CachedCall) → LawfulWire c.Answer
  | groups | groupsOfUser _ => inferInstanceAs (LawfulWire (List Group))
  | group _ => inferInstanceAs (LawfulWire Group)
  | users => inferInstanceAs (LawfulWire (List User))
  | user _ => inferInstanceAs (LawfulWire User)
  | bindings | bindingsOfGroup _ => inferInstanceAs (LawfulWire (List Binding))
  | policies => inferInstanceAs (LawfulWire (List Policy))
  | policy _ => inferInstanceAs (LawfulWire Policy)

/-! ### Keys -/

/-- The call with a key: what stands before the first colon is its name, what stands behind it the
argument. -/
def ofKey? (key : String) : Option CachedCall :=
  match String.ofList (key.toList.takeWhile (· != ':')), key.toList.dropWhile (· != ':') with
  | "groups", [] => some groups
  | "group", _ :: uuid => some (group (.ofList uuid))
  | "users", [] => some users
  | "user", _ :: uid => some (user (.ofList uid))
  | "user-groups", _ :: uid => some (groupsOfUser (.ofList uid))
  | "bindings", [] => some bindings
  | "group-bindings", _ :: uuid => some (bindingsOfGroup (.ofList uuid))
  | "policies", [] => some policies
  | "policy", _ :: uuid => some (policy (.ofList uuid))
  | _, _ => none

theorem ofKey?_key (c : CachedCall) : ofKey? c.key = some c := by
  cases c <;> simp [ofKey?, key, String.toList_append]

theorem key_injective {c c' : CachedCall} (h : c.key = c'.key) : c = c' := by
  have := ofKey?_key c
  rw [h, ofKey?_key c'] at this
  exact (Option.some.inj this).symm

end CachedCall

/-- A call whose answers are kept. -/
def Directory.ask {σ : Type} (d : Directory σ) : (c : CachedCall) → Access σ c.Answer
  | .groups => d.groups
  | .group uuid => d.group uuid
  | .users => d.users
  | .user uid => d.user uid
  | .groupsOfUser uid => d.groupsOfUser uid
  | .bindings => d.bindings
  | .bindingsOfGroup uuid => d.bindingsOfGroup uuid
  | .policies => d.policies
  | .policy uuid => d.policy uuid

end Entitlements
