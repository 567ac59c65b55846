import Entitlements.Review.Grants
import Entitlements.Text.LetterCase

/-! # Policy audits

What the statement of a policy may grant too broadly (`auditStatement`), for one policy with the
groups it is bound to (`Directory.analyzePolicy`), and for all policies of an account
(`Directory.leastPrivilege`). -/

namespace Entitlements

/-- How grave a finding is. -/
inductive Severity where
  | medium
  | high
  deriving DecidableEq, Repr

/-- The name of a severity. -/
def Severity.name : Severity → String
  | medium => "medium"
  | high => "high"

/-- The severity of this name. -/
def Severity.ofName? (s : String) : Option Severity :=
  if s = "medium" then some medium else if s = "high" then some high else none

/-- Whether a severity lies above medium. -/
def Severity.isHigh : Severity → Bool
  | medium => false
  | high => true

/-- A fragment that makes a statement suspicious. -/
structure BroadPattern where
  pattern : String
  description : String
  severity : Severity
  deriving DecidableEq, Repr

/-- The fragments that are looked for. -/
def broadPatterns : List BroadPattern :=
  [ ⟨"*", "Wildcard permission", .high⟩,
    ⟨":*", "Resource wildcard", .medium⟩,
    ⟨"write", "Write access", .medium⟩,
    ⟨"manage", "Management access", .medium⟩,
    ⟨"delete", "Delete capability", .medium⟩,
    ⟨"admin", "Admin access", .high⟩ ]

/-- What is wrong with a statement. -/
inductive Finding where
  /-- It contains a broad pattern. -/
  | broadPermission (pattern description : String) (severity : Severity)
  /-- Nothing in it is restricted by conditions. -/
  | noConditions (description : String) (severity : Severity)
  deriving DecidableEq, Repr

/-- How grave a finding is. -/
def Finding.severity : Finding → Severity
  | broadPermission _ _ severity => severity
  | noConditions _ severity => severity

/-- The finding that a pattern occurs. -/
def BroadPattern.finding (p : BroadPattern) : Finding :=
  .broadPermission p.pattern p.description p.severity

/-- Whether a pattern occurs in a statement, in any letter case. -/
def BroadPattern.occurs (p : BroadPattern) (statement : String) : Bool :=
  occursIn p.pattern.toList (lowercase statement.toList)

/-- The finding that nothing is restricted. -/
def noConditionsFinding : Finding :=
  .noConditions "All permissions lack conditions/restrictions" .medium

/-- Whether a statement declares something, and nothing under conditions. -/
def lacksConditions (permissions : List PermissionStatement) : Bool :=
  !permissions.isEmpty && permissions.all (!·.isConditional)

/-- What is wrong with a statement: the broad patterns in it, in their order, and then the lack of
conditions. -/
def auditStatement (statement : String) : List Finding :=
  ((broadPatterns.filter (·.occurs statement)).map (·.finding))
    ++ if lacksConditions (parseStatement statement) then [noConditionsFinding] else []

/-! ### Reports -/

/-- The findings for one policy. -/
structure PolicyFindings where
  policyUuid : String
  policyName : String
  findings : List Finding
  findingCount : Nat
  deriving DecidableEq, Repr

/-- The findings for all policies of an account. -/
structure LeastPrivilegeReport where
  totalPolicies : Nat
  policiesWithFindings : Nat
  findings : List PolicyFindings
  deriving DecidableEq, Repr

/-- A policy and its statement. -/
structure PolicySummary where
  uuid : String
  name : String
  description : String
  statement : String
  deriving DecidableEq, Repr

/-- A group that a policy is bound to. -/
structure BoundGroup where
  uuid : String
  name : String
  boundary : Option String
  deriving DecidableEq, Repr

/-- What a policy declares, and where it is bound. -/
structure PolicyAnalysis where
  policy : PolicySummary
  permissions : List PermissionStatement
  permissionCount : Nat
  bindings : List BoundGroup
  bindingCount : Nat
  deriving DecidableEq, Repr

/-- The identity and the statement of a policy. -/
def Policy.summary (p : Policy) : PolicySummary :=
  ⟨p.uuid, p.name, p.description.getD "", p.statement⟩

/-- The report on a policy that is bound to these groups. -/
def PolicyAnalysis.ofBindings (policy : Policy) (bindings : List BoundGroup) : PolicyAnalysis :=
  let permissions := parseStatement policy.statement
  ⟨policy.summary, permissions, permissions.length, bindings, bindings.length⟩

/-- The findings for a policy, unless there are none. -/
def PolicyFindings.ofStatement? (policy : Policy) (statement : String) : Option PolicyFindings :=
  let findings := auditStatement statement
  if findings.isEmpty then none else some ⟨policy.uuid, policy.name, findings, findings.length⟩

namespace Directory

variable {σ : Type} (d : Directory σ)

/-- The group of a binding, unless it does not exist. -/
def boundGroup? (b : Binding) : Access σ (Option BoundGroup) := do
  match ← (d.group b.groupUuid).orMissing with
  | some group => return some ⟨b.groupUuid, group.name, b.boundary⟩
  | none => return none

/-- What the policy with this uuid or name declares and where it is bound. -/
def analyzePolicy (identifier : String) : Access σ (Outcome PolicyAnalysis) := do
  match ← d.findPolicy identifier with
  | some policy =>
    let bindings := (← d.bindings).filter (·.policyUuid == policy.uuid)
    let groups ← bindings.mapM d.boundGroup?
    return .found (.ofBindings policy (groups.filterMap id))
  | none => return .notFound "Policy" identifier

/-- The findings for all policies. -/
def leastPrivilege : Access σ LeastPrivilegeReport := do
  let policies ← d.policies
  let findings ← policies.mapM fun policy => do
    return PolicyFindings.ofStatement? policy (← d.policy policy.uuid).statement
  let findings := findings.filterMap id
  return ⟨policies.length, findings.length, findings⟩

end Directory

/-! ### Wire forms -/

open Json

instance : Wire Severity := ⟨fun s => .str s.name, fun j => j.variant? >>= Severity.ofName?⟩

/-- The severity of a finding. -/
def taggedSeverity? (j : Json) : Option Severity := j.taggedVariant? >>= Severity.ofName?

/-- The tag of a finding, and its fields: the entry `type` of an object and its other entries, or
the first item of an array and the others. -/
def taggedFinding? : Json → Option (String × Json)
  | .obj entries =>
    match entries.filter (·.1 == "type") with
    | [(_, tag)] => do return (← asString? tag, .obj (entries.filter (·.1 != "type")))
    | _ => none
  | .arr (tag :: fields) => do return (← asString? tag, .arr fields)
  | _ => none

/-- A finding carries its kind as `type`. To be read it has to be readable as a whole. -/
instance : Wire Finding where
  toJson
    | .broadPermission pattern description severity =>
      .obj [("type", .str "broad_permission"), ("pattern", .str pattern),
        ("description", .str description), ("severity", toJson severity)]
    | .noConditions description severity =>
      .obj [("type", .str "no_conditions"), ("description", .str description),
        ("severity", toJson severity)]
  ofJson? j := do
    let _ ← j.canonical?
    let (tag, content) ← taggedFinding? j
    match tag with
    | "broad_permission" =>
      let f ← content.fields? ["pattern", "description", "severity"]
      return .broadPermission (← f.required "pattern" asString?)
        (← f.required "description" asString?) (← f.required "severity" taggedSeverity?)
    | "no_conditions" =>
      let f ← content.fields? ["description", "severity"]
      return .noConditions (← f.required "description" asString?)
        (← f.required "severity" taggedSeverity?)
    | _ => none

instance : Wire PolicyFindings where
  toJson p := .obj [("policy_uuid", .str p.policyUuid), ("policy_name", .str p.policyName),
    ("findings", toJson p.findings), ("finding_count", .ofNat p.findingCount)]
  ofJson? j := do
    let f ← j.fields? ["policy_uuid", "policy_name", "findings", "finding_count"]
    return {
      policyUuid := ← f.required "policy_uuid" asString?
      policyName := ← f.required "policy_name" asString?
      findings := ← f.required "findings" ofJson?
      findingCount := ← f.required "finding_count" (asNat? 64) }

instance : Wire LeastPrivilegeReport where
  toJson r := .obj [("total_policies", .ofNat r.totalPolicies),
    ("policies_with_findings", .ofNat r.policiesWithFindings), ("findings", toJson r.findings)]
  ofJson? j := do
    let f ← j.fields? ["total_policies", "policies_with_findings", "findings"]
    return {
      totalPolicies := ← f.required "total_policies" (asNat? 64)
      policiesWithFindings := ← f.required "policies_with_findings" (asNat? 64)
      findings := ← f.required "findings" ofJson? }

instance : Wire PolicySummary where
  toJson p := .obj [("uuid", .str p.uuid), ("name", .str p.name),
    ("description", .str p.description), ("statement", .str p.statement)]
  ofJson? j := do
    let f ← j.fields? ["uuid", "name", "description", "statement"]
    return {
      uuid := ← f.required "uuid" asString?
      name := ← f.required "name" asString?
      description := ← f.required "description" asString?
      statement := ← f.required "statement" asString? }

instance : Wire BoundGroup where
  toJson b := .obj ([("uuid", .str b.uuid), ("name", .str b.name)]
    ++ entryOfSome "boundary" .str b.boundary)
  ofJson? j := do
    let f ← j.fields? ["uuid", "name", "boundary"]
    return {
      uuid := ← f.required "uuid" asString?
      name := ← f.required "name" asString?
      boundary := ← f.optional "boundary" asString? }

instance : Wire PolicyAnalysis where
  toJson p := .obj [("policy", toJson p.policy), ("permissions", toJson p.permissions),
    ("permission_count", .ofNat p.permissionCount), ("bindings", toJson p.bindings),
    ("binding_count", .ofNat p.bindingCount)]
  ofJson? j := do
    let f ← j.fields? ["policy", "permissions", "permission_count", "bindings", "binding_count"]
    return {
      policy := ← f.required "policy" ofJson?
      permissions := ← f.required "permissions" ofJson?
      permissionCount := ← f.required "permission_count" (asNat? 64)
      bindings := ← f.required "bindings" ofJson?
      bindingCount := ← f.required "binding_count" (asNat? 64) }

end Entitlements
