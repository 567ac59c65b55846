import Entitlements.Directory.Record

/-! # Payloads

The shapes in which the service sends its records: lists are wrapped in an object or stand alone
(`listPayload?`), and bindings are grouped by their policy (`bindingsPayload?`) and have to be
taken apart (`PolicyBindings.flatten`, `PolicyBindings.ofGroup`). -/

namespace Entitlements

/-- The names under which a list is wrapped. -/
def listFieldName : Json.FieldName := ⟨"items", ["groups", "users", "policies"]⟩

/-- The list that a payload carries. The whole payload has to be readable. -/
def listPayload? {α : Type} [Wire α] (payload : Json) : Option (List α) := do
  let _ ← payload.canonical?
  match payload with
  | .obj _ => (← payload.fields? [listFieldName]).orDefault "items" (Json.asList? ofJson?) []
  | _ => Json.asList? ofJson? payload

/-- The bindings of one policy. -/
structure PolicyBindings where
  policyUuid : String
  groups : List String
  boundaries : List String
  deriving DecidableEq, Repr

open Json in
instance : Wire PolicyBindings where
  toJson b := .obj [("policyUuid", .str b.policyUuid), ("groups", toJson b.groups),
    ("boundaries", toJson b.boundaries)]
  ofJson? j := do
    let f ← j.fields? ["policyUuid", "groups", "boundaries"]
    return {
      policyUuid := ← f.orDefault "policyUuid" asString? ""
      groups := ← f.orDefault "groups" (asList? asString?) []
      boundaries := ← f.orDefault "boundaries" (asList? asString?) [] }

/-- The bindings that a payload carries, grouped by policy. -/
def bindingsPayload? (payload : Json) : Option (List PolicyBindings) := do
  (← payload.fields? [⟨"policyBindings", ["bindings"]⟩]).orDefault "policyBindings"
    (Json.asList? ofJson?) []

namespace PolicyBindings

/-- The binding of the policy to a group, at the level of an account. -/
def bindingTo (b : PolicyBindings) (account groupUuid : String) : Binding :=
  ⟨b.policyUuid, groupUuid, b.boundaries, "account", account⟩

/-- One binding for every policy and every group that it names. -/
def flatten (account : String) (bs : List PolicyBindings) : List Binding :=
  bs.flatMap fun b => b.groups.map (b.bindingTo account)

/-- One binding of the group for every policy, whatever groups it names. -/
def ofGroup (account groupUuid : String) (bs : List PolicyBindings) : List Binding :=
  bs.map (·.bindingTo account groupUuid)

end PolicyBindings

end Entitlements
