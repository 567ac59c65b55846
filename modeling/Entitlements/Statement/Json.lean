import Entitlements.Json.Record
import Entitlements.Statement.Basic
import Entitlements.Statement.Held

/-! # Statements in JSON

The wire forms of effects, declarations and held permissions. An effect is its keyword, in capitals
only; held permissions are listed in increasing order and read in any order. -/

namespace Entitlements

open Json

instance : Wire Effect := ⟨fun e => .str e.keyword, fun j => j.variant? >>= Effect.ofName?⟩

instance : Wire PermissionStatement where
  toJson p := .obj ([("effect", toJson p.effect), ("action", .str p.action)]
    ++ entryOfSome "conditions" .str p.conditions ++ [("description", .str p.description)])
  ofJson? j := do
    let f ← j.fields? ["effect", "action", "conditions", "description"]
    return {
      effect := ← f.required "effect" ofJson?
      action := ← f.required "action" asString?
      conditions := ← f.optional "conditions" asString?
      description := ← f.required "description" asString? }

instance : Wire HeldPermissions where
  toJson h := .obj [("permissions", toJson h.sorted)]
  ofJson? j := do
    let f ← j.fields? ["permissions"]
    return .ofList (← f.required "permissions" (asList? asString?))

end Entitlements
